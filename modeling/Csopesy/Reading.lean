import Mathlib.Data.Nat.Digits.Defs
import Mathlib.Tactic

/-! # Reading numerals and settings

A digit string is read from the left by Horner's rule (`horner`), which gives its
value in Mathlib's sense (`horner_zero`).  A reader with a bounded accumulator can
**saturate**: test before each step whether the next value would exceed a cap, and
if so store the cap.  Such a reader ends at the exact value or at the cap, whichever
is smaller, for strings of any length (`foldl_satStep`).

A saturated value is harmless where the reader clamps it afterwards to a range
below the cap (`clamp_min_cap`, `clamp_neg_min_cap`), and clamping in two steps is
clamping to the smaller range (`clamp_clamp`).

A list of entries is read from the left into a state.  A component of the state
that every entry either overwrites or keeps holds the value of the last entry that
overwrites it (`foldl_last`); a flag that entries only raise is raised by any of
them (`foldl_flag`); a log that every entry extends by at most one line holds those
lines in order (`foldl_log`).  Layers of entries are appended, and the last layer
with an overwriting entry decides (`last_append`).
-/
namespace Numeral

/-! ## Saturating accumulation -/

/-- Horner's rule from `n` on, most significant digit first. -/
def horner (b n : Nat) (ds : List Nat) : Nat := ds.foldl (fun n d => b * n + d) n

@[simp] theorem horner_cons (b n d : Nat) (ds : List Nat) :
    horner b n (d :: ds) = horner b (b * n + d) ds := rfl

theorem horner_zero (b : Nat) (ds : List Nat) : horner b 0 ds = Nat.ofDigits b ds.reverse := by
  rw [Nat.ofDigits_eq_foldr, List.foldr_reverse]
  unfold horner
  congr 1
  funext n d
  simp [Nat.add_comm]

/-- One digit: the cap is stored when the next value would exceed it. -/
def satStep (b cap m d : Nat) : Nat := if m > (cap - d) / b then cap else m * b + d

/-- The test is exact. -/
theorem satStep_eq_min {b cap d : Nat} (hb : 0 < b) (hd : d ≤ cap) (m : Nat) :
    satStep b cap m d = min (b * m + d) cap := by
  unfold satStep
  rw [Nat.mul_comm b m]
  by_cases hm : (cap - d) / b < m
  · have hlarge : cap - d < m * b := (Nat.div_lt_iff_lt_mul hb).mp hm
    rw [if_pos hm]
    omega
  · have hsmall : m * b ≤ cap - d := (Nat.le_div_iff_mul_le hb).mp (by omega)
    rw [if_neg hm]
    omega

/-- A saturated accumulator stays saturated. -/
theorem satStep_min {b cap d : Nat} (hb : 0 < b) (hd : d ≤ cap) (n : Nat) :
    satStep b cap (min n cap) d = min (b * n + d) cap := by
  rw [satStep_eq_min hb hd]
  by_cases hn : n ≤ cap
  · rw [Nat.min_eq_left hn]
  · have hcap : cap ≤ b * cap := Nat.le_mul_of_pos_left cap hb
    have hle : b * cap ≤ b * n := Nat.mul_le_mul_left b (by omega)
    rw [Nat.min_eq_right (by omega : cap ≤ n)]
    omega

/-- **Saturating accumulation ends at the exact value or at the cap.** -/
theorem foldl_satStep {b cap : Nat} (hb : 0 < b) {ds : List Nat} (hds : ∀ d ∈ ds, d ≤ cap)
    (n : Nat) : ds.foldl (satStep b cap) (min n cap) = min (horner b n ds) cap := by
  induction ds generalizing n with
  | nil => rfl
  | cons d ds ih =>
    rw [List.foldl_cons, satStep_min hb (hds d List.mem_cons_self),
      ih (fun e he => hds e (List.mem_cons_of_mem _ he)), horner_cons]

/-! ## Clamping -/

section Clamp
variable {α : Type*} [LinearOrder α]

def clamp (lo hi x : α) : α := max lo (min hi x)

theorem clamp_of_mem {lo hi x : α} (hlo : lo ≤ x) (hhi : x ≤ hi) : clamp lo hi x = x := by
  unfold clamp
  rw [min_eq_right hhi, max_eq_right hlo]

theorem clamp_mem {lo hi : α} (h : lo ≤ hi) (x : α) : lo ≤ clamp lo hi x ∧ clamp lo hi x ≤ hi :=
  ⟨le_max_left _ _, max_le h (min_le_left _ _)⟩

/-- A value is changed by clamping exactly when it is out of range. -/
theorem clamp_eq_self_iff {lo hi : α} (h : lo ≤ hi) {x : α} : clamp lo hi x = x ↔ lo ≤ x ∧ x ≤ hi := by
  constructor
  · intro heq
    rw [← heq]
    exact clamp_mem h x
  · exact fun hx => clamp_of_mem hx.1 hx.2

/-- Clamping to a range first and to a part of it then is clamping to the part. -/
theorem clamp_clamp {lo hi lo' hi' : α} (hlo : lo' ≤ lo) (hhi : hi ≤ hi') (h : lo ≤ hi) (x : α) :
    clamp lo hi (clamp lo' hi' x) = clamp lo hi x := by
  unfold clamp
  rcases le_total x lo' with hx | hx
  · have hxhi : x ≤ hi := hx.trans (hlo.trans h)
    rw [min_eq_right (hxhi.trans hhi), max_eq_left hx, min_eq_right (hlo.trans h),
      max_eq_left hlo, min_eq_right hxhi, max_eq_left (hx.trans hlo)]
  · rw [max_eq_right (le_min (hlo.trans (h.trans hhi)) hx), ← min_assoc, min_eq_left hhi]

end Clamp

/-- Saturation above the range is not seen after clamping. -/
theorem clamp_min_cap {lo hi : Int} {cap : Nat} (hcap : hi ≤ cap) (n : Nat) :
    clamp lo hi ((min n cap : Nat) : Int) = clamp lo hi (n : Int) := by
  unfold clamp
  omega

/-- Nor below it. -/
theorem clamp_neg_min_cap {lo hi : Int} {cap : Nat} (hcap : -lo ≤ cap) (n : Nat) :
    clamp lo hi (-((min n cap : Nat) : Int)) = clamp lo hi (-(n : Int)) := by
  unfold clamp
  omega

end Numeral

/-! ## Settings read in sequence -/

namespace LastWins
variable {σ α β : Type*} {f : σ → α → σ}

/-- The value of the last entry that sets one. -/
def last (set : α → Option β) (entries : List α) : Option β := (entries.filterMap set).getLast?

/-- A later layer takes precedence. -/
theorem last_append (set : α → Option β) (xs ys : List α) :
    last set (xs ++ ys) = (last set ys).or (last set xs) := by
  unfold last
  rw [List.filterMap_append, List.getLast?_append]

theorem last_singleton (set : α → Option β) (x : α) : last set [x] = set x := by
  unfold last
  cases h : set x with
  | none => rw [List.filterMap_cons_none h]; rfl
  | some v => rw [List.filterMap_cons_some h]; rfl

/-- Values may be adjusted before or after the choice. -/
theorem last_map {γ : Type*} (g : β → γ) (set : α → Option β) (entries : List α) :
    last (fun x => (set x).map g) entries = (last set entries).map g := by
  unfold last
  rw [← List.map_filterMap, List.getLast?_map]

/-- **The last setting wins.** -/
theorem foldl_last (get : σ → β) (set : α → Option β)
    (h : ∀ s x, get (f s x) = (set x).getD (get s)) (entries : List α) (s : σ) :
    get (entries.foldl f s) = (last set entries).getD (get s) := by
  induction entries generalizing s with
  | nil => rfl
  | cons x entries ih =>
    rw [List.foldl_cons, ih, h, ← List.singleton_append, last_append, last_singleton]
    cases last set entries <;> rfl

/-- A flag that is never lowered. -/
theorem foldl_flag (get : σ → Bool) (raises : α → Bool)
    (h : ∀ s x, get (f s x) = (get s || raises x)) (entries : List α) (s : σ) :
    get (entries.foldl f s) = (get s || entries.any raises) := by
  induction entries generalizing s with
  | nil => rw [List.foldl_nil, List.any_nil, Bool.or_false]
  | cons x entries ih => rw [List.foldl_cons, ih, h, List.any_cons, Bool.or_assoc]

/-- A log that is only extended. -/
theorem foldl_log (get : σ → List β) (note : α → Option β)
    (h : ∀ s x, get (f s x) = get s ++ (note x).toList) (entries : List α) (s : σ) :
    get (entries.foldl f s) = get s ++ entries.filterMap note := by
  induction entries generalizing s with
  | nil => exact (List.append_nil _).symm
  | cons x entries ih =>
    rw [List.foldl_cons, ih, h, List.append_assoc]
    cases hx : note x with
    | none => rw [List.filterMap_cons_none hx]; rfl
    | some line => rw [List.filterMap_cons_some hx]; rfl

end LastWins
