import Mathlib.Tactic

/-! # Computations that may fault

Machine integers and containers with every operation checked.  An operation whose
result does not fit its type, that divides by zero, or that reaches outside a
container is a fault and ends the computation.  So a computation that returns a value
has met no fault on its way, and what it returns is what the same operations on
unbounded integers return.

`iterate` is a loop with a bound on its number of rounds.  `iterate_eq` is its rule: an
invariant, a measure, and the value that the rest of the loop returns.  `forInt_eq` and
`whileDo_eq` are that rule for the loops of C.
-/
namespace Machine

inductive Fault
  | overflow
  | divisionByZero
  | outOfRange
  | outOfRounds
deriving DecidableEq, Repr

abbrev Result (α : Type) := Except Fault α

section
variable {α β : Type}

@[simp] theorem ok_bind (a : α) (f : α → Result β) : (Except.ok a >>= f : Result β) = f a := rfl

/-- A conditional, with a branch for each of its values. -/
theorem ite_ok {p : Prop} [Decidable p] {x y : Result α} {a b : α} (hx : p → x = .ok a)
    (hy : ¬ p → y = .ok b) : (if p then x else y) = .ok (if p then a else b) := by
  by_cases h : p
  · rw [if_pos h, if_pos h, hx h]
  · rw [if_neg h, if_neg h, hy h]

end

/-! ## Integers -/

def intMin : Int := -2147483648
def intMax : Int := 2147483647
def longLongMin : Int := -9223372036854775808
def longLongMax : Int := 9223372036854775807
def sizeMax : Int := 18446744073709551615

/-- The value of an `int` expression. -/
def int (x : Int) : Result Int := if intMin ≤ x ∧ x ≤ intMax then .ok x else .error .overflow

/-- The value of a `long long` expression. -/
def longLong (x : Int) : Result Int :=
  if longLongMin ≤ x ∧ x ≤ longLongMax then .ok x else .error .overflow

/-- The value of a `size_t` expression, or a conversion to `size_t`. -/
def size (x : Int) : Result Nat :=
  if 0 ≤ x ∧ x ≤ sizeMax then .ok x.toNat else .error .overflow

/-- `a % b` on `long long`. -/
def rem (a b : Int) : Result Int :=
  if b = 0 then .error .divisionByZero
  else do
    let _ ← longLong (a.tdiv b)
    return a.tmod b

theorem int_ok {x : Int} (hlo : -2147483648 ≤ x) (hhi : x ≤ 2147483647) : int x = .ok x :=
  if_pos ⟨hlo, hhi⟩

theorem longLong_ok {x : Int} (hlo : -9223372036854775808 ≤ x) (hhi : x ≤ 9223372036854775807) :
    longLong x = .ok x := if_pos ⟨hlo, hhi⟩

theorem size_ok {x : Int} (hlo : 0 ≤ x) (hhi : x ≤ 18446744073709551615) : size x = .ok x.toNat :=
  if_pos ⟨hlo, hhi⟩

/-- A positive divisor is safe for every dividend. -/
theorem rem_ok {a b : Int} (hlo : -9223372036854775808 ≤ a) (hhi : a ≤ 9223372036854775807)
    (hb : 0 < b) : rem a b = .ok (a.tmod b) := by
  have hquotient : (a.tdiv b).natAbs ≤ a.natAbs := by
    rw [Int.natAbs_tdiv]
    exact Nat.div_le_self _ _
  have hnonneg : 0 ≤ a → 0 ≤ a.tdiv b := fun ha => Int.tdiv_nonneg ha (Int.le_of_lt hb)
  have hfits : longLong (a.tdiv b) = .ok (a.tdiv b) := by
    rcases Int.le_total 0 a with ha | ha
    · exact longLong_ok (by omega) (by omega)
    · have hneg := Int.tdiv_nonneg (Int.neg_nonneg_of_nonpos ha) (Int.le_of_lt hb)
      rw [Int.neg_tdiv] at hneg
      exact longLong_ok (by omega) (by omega)
  unfold rem
  rw [if_neg (Int.ne_of_gt hb), hfits]
  rfl

/-! ## Containers -/

section
variable {α : Type}

/-- `xs[i]` -/
def get (xs : List α) (i : Nat) : Result α :=
  match xs[i]? with
  | some x => .ok x
  | none => .error .outOfRange

/-- `xs[i] = x` -/
def store (xs : List α) (i : Nat) (x : α) : Result (List α) :=
  if i < xs.length then .ok (xs.set i x) else .error .outOfRange

/-- `s.substr(pos, len)`, with all of it inside the string. -/
def substr (s : List α) (pos len : Nat) : Result (List α) :=
  if pos + len ≤ s.length then .ok ((s.drop pos).take len) else .error .outOfRange

/-- `s.substr(pos)` -/
def substrFrom (s : List α) (pos : Nat) : Result (List α) :=
  if pos ≤ s.length then .ok (s.drop pos) else .error .outOfRange

/-- `xs.erase(xs.begin(), xs.begin() + n)` -/
def eraseFront (xs : List α) (n : Int) : Result (List α) :=
  if 0 ≤ n ∧ n ≤ xs.length then .ok (xs.drop n.toNat) else .error .outOfRange

/-- `xs.pop_back()` -/
def popBack (xs : List α) : Result (List α) :=
  if xs.isEmpty then .error .outOfRange else .ok xs.dropLast

/-- `s.find(c, pos)`; `none` for `npos`. -/
def find [BEq α] (s : List α) (c : α) (pos : Nat) : Option Nat :=
  ((s.drop pos).findIdx? (· == c)).map (pos + ·)

theorem get_ok {xs : List α} {i : Nat} {x : α} (h : xs[i]? = some x) : get xs i = .ok x := by
  unfold get
  rw [h]

theorem store_ok {xs : List α} {i : Nat} (h : i < xs.length) (x : α) :
    store xs i x = .ok (xs.set i x) := if_pos h

theorem substr_ok {s : List α} {pos len : Nat} (h : pos + len ≤ s.length) :
    substr s pos len = .ok ((s.drop pos).take len) := if_pos h

theorem substrFrom_ok {s : List α} {pos : Nat} (h : pos ≤ s.length) :
    substrFrom s pos = .ok (s.drop pos) := if_pos h

theorem eraseFront_ok {xs : List α} {n : Int} (hlo : 0 ≤ n) (hhi : n ≤ xs.length) :
    eraseFront xs n = .ok (xs.drop n.toNat) := if_pos ⟨hlo, hhi⟩

theorem popBack_ok {xs : List α} (h : xs ≠ []) : popBack xs = .ok xs.dropLast :=
  if_neg (by simpa using h)

/-- Every element in turn. -/
theorem mapM_ok {β : Type} {f : α → Result β} {g : α → β} {xs : List α}
    (h : ∀ x ∈ xs, f x = .ok (g x)) : xs.mapM f = .ok (xs.map g) := by
  induction xs with
  | nil => rfl
  | cons x xs ih =>
    rw [List.mapM_cons, h x List.mem_cons_self, ok_bind,
      ih fun y hy => h y (List.mem_cons_of_mem _ hy)]
    rfl

end

/-! ## Loops -/

section
variable {σ ρ : Type}

/-- A loop whose body goes on with a new state or leaves with a result. -/
def iterate (body : σ → Result (σ ⊕ ρ)) : Nat → σ → Result ρ
  | 0, _ => .error .outOfRounds
  | rounds + 1, s => do
    match ← body s with
    | .inl s => iterate body rounds s
    | .inr r => return r

/-- `for (int i = 0; i < hi; ++i)` -/
def forInt (hi : Int) (body : Int → σ → Result σ) (s : σ) : Result σ :=
  iterate (fun (is : Int × σ) =>
    if is.1 < hi then do
      let s ← body is.1 is.2
      let i ← int (is.1 + 1)
      return .inl (i, s)
    else return .inr is.2) (hi.toNat + 1) (0, s)

/-- `while (cond) body` -/
def whileDo (cond : σ → Result Bool) (body : σ → Result σ) (rounds : Nat) (s : σ) : Result σ :=
  iterate (fun s => do
    if ← cond s then
      let s ← body s
      return .inl s
    else return .inr s) rounds s

/-- **Loop rule.**  Every state that satisfies the invariant leaves the loop with the
value of its rest, or goes on to a state of smaller measure whose rest is the same. -/
theorem iterate_eq {body : σ → Result (σ ⊕ ρ)} (inv : σ → Prop) (measure : σ → Nat) (rest : σ → ρ)
    (hbody : ∀ s, inv s → body s = .ok (.inr (rest s)) ∨
      ∃ s', body s = .ok (.inl s') ∧ inv s' ∧ measure s' < measure s ∧ rest s' = rest s)
    {rounds : Nat} {s : σ} (hs : inv s) (hrounds : measure s < rounds) :
    iterate body rounds s = .ok (rest s) := by
  induction rounds generalizing s with
  | zero => exact absurd hrounds (Nat.not_lt_zero _)
  | succ rounds ih =>
    rw [iterate]
    rcases hbody s hs with hdone | ⟨s', hgoes, hs', hless, hrest⟩
    · rw [hdone]
      rfl
    · rw [hgoes, ok_bind, ← hrest]
      exact ih hs' (by omega)

/-- The states that a `for` loop goes through. -/
theorem forInt_eq {hi : Int} {body : Int → σ → Result σ} (states : Nat → σ)
    (hhi : hi ≤ 2147483647)
    (hbody : ∀ i : Nat, (i : Int) < hi → body i (states i) = .ok (states (i + 1))) :
    forInt hi body (states 0) = .ok (states hi.toNat) := by
  unfold forInt
  refine iterate_eq (fun is : Int × σ => ∃ i : Nat, is = ((i : Int), states i) ∧ i ≤ hi.toNat)
    (fun is => (hi - is.1).toNat) (fun _ => states hi.toNat) ?_ ⟨0, rfl, Nat.zero_le _⟩ ?_
  · rintro _ ⟨i, rfl, hi'⟩
    dsimp only
    by_cases hmore : (i : Int) < hi
    · right
      refine ⟨((i + 1 : Nat), states (i + 1)), ?_, ⟨i + 1, rfl, by omega⟩, by omega, rfl⟩
      rw [if_pos hmore, hbody i hmore, ok_bind, int_ok (by omega) (by omega), ok_bind]
      rfl
    · left
      rw [if_neg hmore, show hi.toNat = i by omega]
      rfl
  · dsimp only
    omega

/-- What the rest of a `while` loop leaves. -/
theorem whileDo_eq {cond : σ → Result Bool} {body : σ → Result σ} (inv : σ → Prop)
    (measure : σ → Nat) (rest : σ → σ)
    (hbody : ∀ s, inv s → (cond s = .ok false ∧ rest s = s) ∨
      ∃ s', cond s = .ok true ∧ body s = .ok s' ∧ inv s' ∧ measure s' < measure s ∧
        rest s' = rest s)
    {rounds : Nat} {s : σ} (hs : inv s) (hrounds : measure s < rounds) :
    whileDo cond body rounds s = .ok (rest s) := by
  unfold whileDo
  refine iterate_eq inv measure rest ?_ hs hrounds
  intro s hs
  rcases hbody s hs with ⟨hcond, hrest⟩ | ⟨s', hcond, hgoes, hs', hless, hrest⟩
  · left
    rw [hcond, ok_bind, hrest]
    rfl
  · right
    refine ⟨s', ?_, hs', hless, hrest⟩
    rw [hcond, ok_bind, if_pos rfl, hgoes]
    rfl

end
end Machine
