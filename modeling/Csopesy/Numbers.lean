import Csopesy.Cli
import Csopesy.Interpreter
import Csopesy.Reading

/-! # Numbers in options and commands

`wellFormedInteger` with `saturateToInt` in `src/entities/cli.cpp` and
`parseFullInteger` in `src/features/commands/interpreter.cpp` are written
separately.  Both accept exactly the strings `[+-]?[0-9]+` (`IsDecimal`), and both
return the exact value clamped to the range of `int` (`parseFullInteger_eq`,
`wellFormedInteger_eq`): the accumulator saturates at 10^18, which no later clamp
can tell from the exact value.
-/
namespace Csopesy
open Numeral

/-! ## Signed decimal integers -/

def isDigit (c : UInt8) : Bool := decide (0x30 ≤ c) && decide (c ≤ 0x39)

def digitValue (c : UInt8) : Nat := c.toNat - 48

/-- The exact value of a string of digits. -/
def digitsValue (ds : Bytes) : Nat := Nat.ofDigits 10 (ds.map digitValue).reverse

/-- At least one byte, and digits only. -/
def IsNumeral (ds : Bytes) : Prop := ds ≠ [] ∧ ∀ c ∈ ds, isDigit c = true

/-- A string of the form `[+-]?[0-9]+` and its exact value. -/
inductive IsDecimal : Bytes → Int → Prop
  | unsigned {ds : Bytes} (h : IsNumeral ds) : IsDecimal ds (digitsValue ds)
  | plus {ds : Bytes} (h : IsNumeral ds) : IsDecimal (0x2B :: ds) (digitsValue ds)
  | minus {ds : Bytes} (h : IsNumeral ds) : IsDecimal (0x2D :: ds) (-(digitsValue ds : Int))

/-- The value of a string of digits, `none` for every other string. -/
def numeral (ds : Bytes) : Option Nat :=
  if !ds.isEmpty && ds.all isDigit then some (digitsValue ds) else none

/-- The value of a signed decimal integer, `none` for every other string. -/
def decimal : Bytes → Option Int
  | [] => none
  | c :: ds =>
    if c = 0x2B then (numeral ds).map fun n : Nat => (n : Int)
    else if c = 0x2D then (numeral ds).map fun n : Nat => -(n : Int)
    else (numeral (c :: ds)).map fun n : Nat => (n : Int)

theorem numeral_eq_some_iff {ds : Bytes} {n : Nat} :
    numeral ds = some n ↔ IsNumeral ds ∧ n = digitsValue ds := by
  have htest : (!ds.isEmpty && ds.all isDigit) = true ↔ IsNumeral ds := by
    simp [IsNumeral, List.all_eq_true]
  unfold numeral
  by_cases h : IsNumeral ds
  · rw [if_pos (htest.mpr h)]
    simp [h, eq_comm]
  · rw [if_neg (fun h' => h (htest.mp h'))]
    simp [h]

theorem IsNumeral.head_ne {c : UInt8} {ds : Bytes} (h : IsNumeral (c :: ds)) :
    c ≠ 0x2B ∧ c ≠ 0x2D := by
  have hdigit := h.2 c List.mem_cons_self
  constructor <;> rintro rfl <;> exact absurd hdigit (by decide)

/-- **`decimal` decides the grammar.** -/
theorem decimal_eq_some_iff {s : Bytes} {v : Int} : decimal s = some v ↔ IsDecimal s v := by
  constructor
  · intro h
    cases s with
    | nil => exact absurd h (by simp [decimal])
    | cons c ds =>
      rw [decimal] at h
      split at h
      · rename_i hplus
        obtain ⟨n, hn, rfl⟩ := Option.map_eq_some_iff.mp h
        obtain ⟨hds, rfl⟩ := numeral_eq_some_iff.mp hn
        subst hplus
        exact .plus hds
      · split at h
        · rename_i hminus
          obtain ⟨n, hn, rfl⟩ := Option.map_eq_some_iff.mp h
          obtain ⟨hds, rfl⟩ := numeral_eq_some_iff.mp hn
          subst hminus
          exact .minus hds
        · obtain ⟨n, hn, rfl⟩ := Option.map_eq_some_iff.mp h
          obtain ⟨hds, rfl⟩ := numeral_eq_some_iff.mp hn
          exact .unsigned hds
  · intro h
    cases h with
    | unsigned h =>
      have hvalue := numeral_eq_some_iff.mpr ⟨h, rfl⟩
      cases s with
      | nil => exact absurd rfl h.1
      | cons c ds => rw [decimal, if_neg h.head_ne.1, if_neg h.head_ne.2, hvalue, Option.map_some]
    | plus h => rw [decimal, if_pos rfl, numeral_eq_some_iff.mpr ⟨h, rfl⟩, Option.map_some]
    | minus h =>
      rw [decimal, if_neg (by decide), if_pos rfl, numeral_eq_some_iff.mpr ⟨h, rfl⟩,
        Option.map_some]

/-! ## The digit loops -/

/-- Where both digit loops saturate. -/
def kMagnitudeCap : Nat := 1000000000000000000

theorem toNat_digit {c : UInt8} (h : isDigit c = true) :
    (c - 0x30).toUInt64.toNat = digitValue c ∧ digitValue c ≤ 9 := by
  simp only [isDigit, Bool.and_eq_true, decide_eq_true_eq] at h
  obtain ⟨hlo, hhi⟩ := h
  have hlo' : 48 ≤ c.toNat := UInt8.le_iff_toNat_le.mp hlo
  have hhi' : c.toNat ≤ 57 := UInt8.le_iff_toNat_le.mp hhi
  have hsub : (c - 0x30).toNat = c.toNat - 48 := UInt8.toNat_sub_of_le _ _ hlo
  constructor
  · rw [UInt8.toNat_toUInt64, hsub]
    rfl
  · unfold digitValue
    omega

/-- The two conditions of a digit loop, and what it stores, on natural numbers. -/
theorem toNat_step (mag : UInt64) {digit : UInt64} (hdigit : digit.toNat ≤ 9) :
    (if mag > (1000000000000000000 - digit) / 10 then 1000000000000000000
      else mag * 10 + digit : UInt64).toNat = satStep 10 kMagnitudeCap mag.toNat digit.toNat := by
  have hle : digit ≤ 1000000000000000000 := by
    rw [UInt64.le_iff_toNat_le]
    exact hdigit.trans (by decide)
  have hsub : ((1000000000000000000 - digit) / 10 : UInt64).toNat =
      (kMagnitudeCap - digit.toNat) / 10 := by
    rw [UInt64.toNat_div, UInt64.toNat_sub_of_le _ _ hle]
    rfl
  have htest : mag > (1000000000000000000 - digit) / 10 ↔
      mag.toNat > (kMagnitudeCap - digit.toNat) / 10 := by
    rw [gt_iff_lt, UInt64.lt_iff_toNat_lt, hsub]
  unfold satStep
  by_cases h : mag > (1000000000000000000 - digit) / 10
  · rw [if_pos h, if_pos (htest.mp h)]
    rfl
  · rw [if_neg h, if_neg (fun h' => h (htest.mpr h')), UInt64.toNat_add, UInt64.toNat_mul]
    -- the product and the sum are below 2^64
    have hsmall : ¬ mag.toNat > (kMagnitudeCap - digit.toNat) / 10 := fun h' => h (htest.mpr h')
    have hten : (10 : UInt64).toNat = 10 := rfl
    unfold kMagnitudeCap at hsmall
    rw [hten]
    omega

theorem test_digit (c : UInt8) :
    (decide (c < 0x30) || decide (c > 0x39)) = true ↔ ¬ isDigit c = true := by
  simp only [isDigit, Bool.or_eq_true, Bool.and_eq_true, decide_eq_true_eq, gt_iff_lt,
    UInt8.lt_iff_toNat_lt, UInt8.le_iff_toNat_le]
  omega

/-- A digit loop reads digits only, and does with them what the accumulator on natural
numbers does. -/
theorem digits_foldl (ds : Bytes) (mag : UInt64) :
    (parseFullInteger.digits mag ds).map UInt64.toNat =
      if ds.all isDigit then some ((ds.map digitValue).foldl (satStep 10 kMagnitudeCap) mag.toNat)
      else none := by
  induction ds generalizing mag with
  | nil => rfl
  | cons c ds ih =>
    rw [parseFullInteger.digits]
    by_cases hc : isDigit c = true
    · rw [if_neg (fun h => (test_digit c).mp h hc)]
      obtain ⟨hdigit, hle⟩ := toNat_digit hc
      have hstep := toNat_step mag (hdigit.trans_le hle)
      rw [hdigit] at hstep
      rw [List.all_cons, hc, Bool.true_and, List.map_cons, List.foldl_cons, ← hstep, ← ih]
      dsimp only
      split <;> rfl
    · rw [if_pos ((test_digit c).mpr hc), List.all_cons, Bool.eq_false_of_not_eq_true hc]
      rfl

/-- **A digit loop** ends at the exact value or at the cap. -/
theorem digits_eq (ds : Bytes) :
    (parseFullInteger.digits 0 ds).map UInt64.toNat =
      if ds.all isDigit then some (min (digitsValue ds) kMagnitudeCap) else none := by
  have hcap : ∀ d ∈ ds.map digitValue, d ≤ kMagnitudeCap := by
    intro d hd
    obtain ⟨c, -, rfl⟩ := List.mem_map.mp hd
    have hbyte : c.toNat < 256 := c.toNat_lt
    unfold digitValue kMagnitudeCap
    omega
  have hvalue := foldl_satStep (b := 10) (by decide) hcap 0
  rw [Nat.zero_min, horner_zero] at hvalue
  rw [digits_foldl, show (0 : UInt64).toNat = 0 from rfl, hvalue]
  rfl

/-- The two loops are one. -/
theorem wellFormedInteger_digits (mag : UInt64) (ds : Bytes) :
    Cli.wellFormedInteger.digits mag ds = parseFullInteger.digits mag ds := by
  induction ds generalizing mag with
  | nil => rfl
  | cons c ds ih =>
    rw [Cli.wellFormedInteger.digits, parseFullInteger.digits]
    simp only [ih]

/-- From 0, on digits: the exact value, saturated. -/
theorem digits_numeral (ds : Bytes) :
    (if ds.isEmpty then none else (parseFullInteger.digits 0 ds).map UInt64.toNat) =
      (numeral ds).map fun n => min n kMagnitudeCap := by
  unfold numeral
  rw [digits_eq]
  cases ds with
  | nil => rfl
  | cons c ds =>
    by_cases h : (c :: ds).all isDigit = true
    · simp only [h, if_true]
      rfl
    · simp only [h]
      rfl

/-! ## The two parsers -/

/-- The range of `int`. -/
def kIntMin : Int := -2147483648
def kIntMax : Int := 2147483647

/-- The narrowing that both parsers write out: an asymmetric bound for negative
numbers. -/
theorem saturateToInt_eq {mag : UInt64} {n : Nat} (hmag : mag.toNat = min n kMagnitudeCap)
    (negative : Bool) :
    Cli.saturateToInt mag negative =
      clamp kIntMin kIntMax (if negative then -(n : Int) else (n : Int)) := by
  have hge : mag ≥ 2147483648 ↔ 2147483648 ≤ mag.toNat := by
    rw [ge_iff_le, UInt64.le_iff_toNat_le]
    rfl
  have hgt : mag > 2147483647 ↔ 2147483647 < mag.toNat := by
    rw [gt_iff_lt, UInt64.lt_iff_toNat_lt]
    rfl
  unfold Cli.saturateToInt
  simp only [hge, hgt, hmag]
  cases negative with
  | true =>
    have hcap : -kIntMin ≤ kMagnitudeCap := by decide
    simp only [if_true]
    rw [← clamp_neg_min_cap hcap]
    unfold clamp kIntMin kIntMax
    split <;> omega
  | false =>
    have hcap : kIntMax ≤ kMagnitudeCap := by decide
    simp only [Bool.false_eq_true, if_false]
    rw [← clamp_min_cap hcap]
    unfold clamp kIntMin kIntMax
    split <;> omega

/-- Both parsers cut off the sign in the same way. -/
theorem decimal_eq (s : Bytes) :
    decimal s =
      (numeral (if s.head? == some 0x2B || s.head? == some 0x2D then s.drop 1 else s)).map
        fun n : Nat => if s.head? == some 0x2D then -(n : Int) else (n : Int) := by
  cases s with
  | nil => rfl
  | cons c ds =>
    rw [decimal]
    by_cases hplus : c = 0x2B
    · subst hplus
      rfl
    · by_cases hminus : c = 0x2D
      · subst hminus
        rfl
      · simp [hplus, hminus]

/-- **`parseFullInteger`** accepts `[+-]?[0-9]+` and returns the exact value clamped
to `int`. -/
theorem parseFullInteger_eq (s : Bytes) :
    parseFullInteger s = (decimal s).map (clamp kIntMin kIntMax) := by
  have hnarrow : ∀ (negative : Bool) (mag : UInt64), (if negative then
      if mag ≥ 2147483648 then -2147483647 - 1 else -(mag.toNat : Int)
      else if mag > 2147483647 then 2147483647 else (mag.toNat : Int)) =
        Cli.saturateToInt mag negative := fun _ _ => rfl
  rw [decimal_eq]
  unfold parseFullInteger
  simp only [hnarrow]
  generalize (if s.head? == some 0x2B || s.head? == some 0x2D then s.drop 1 else s) = body
  have hbody := digits_numeral body
  by_cases hempty : body.isEmpty = true
  · rw [if_pos hempty] at hbody ⊢
    cases hn : numeral body with
    | none => rfl
    | some n => exact absurd (hn ▸ hbody) (by simp)
  · rw [if_neg hempty] at hbody ⊢
    cases hn : numeral body with
    | none =>
      rw [hn] at hbody
      rw [Option.map_eq_none_iff.mp hbody]
      rfl
    | some n =>
      rw [hn] at hbody
      obtain ⟨mag, hdigits, hmag⟩ := Option.map_eq_some_iff.mp hbody
      rw [hdigits]
      exact congrArg some (saturateToInt_eq hmag _)

/-- **`wellFormedInteger` with `saturateToInt`** is the same function. -/
theorem wellFormedInteger_eq (s : Bytes) :
    ((Cli.wellFormedInteger s).map fun x => Cli.saturateToInt x.2 x.1) =
      (decimal s).map (clamp kIntMin kIntMax) := by
  rw [← parseFullInteger_eq]
  unfold Cli.wellFormedInteger parseFullInteger
  simp only [wellFormedInteger_digits]
  generalize (if (s.head? == some 0x2B || s.head? == some 0x2D) = true then s.drop 1 else s) = body
  by_cases hempty : body.isEmpty = true
  · rw [if_pos hempty, if_pos hempty]
    rfl
  · rw [if_neg hempty, if_neg hempty, Option.map_map]
    rfl

/-! ## The interval setters -/

namespace Parameters

theorem clampReport_applied (field : Bytes) {lo hi : Int} (h : lo ≤ hi) (ms : Int) :
    (clampReport field lo hi ms).applied = clamp lo hi ms := by
  unfold clampReport clamp
  dsimp only
  split
  · omega
  · split <;> omega

theorem clampReport_clamped (field : Bytes) {lo hi : Int} (h : lo ≤ hi) (ms : Int) :
    (clampReport field lo hi ms).clamped = true ↔ ¬ (lo ≤ ms ∧ ms ≤ hi) := by
  rw [← clamp_eq_self_iff h, ← clampReport_applied field h ms]
  exact decide_eq_true_iff

/-- A number read by either parser reaches the setter clamped to `int`; the interval
and the report are those of the exact number. -/
theorem clampReport_int (field : Bytes) {lo hi : Int} (h : lo ≤ hi) (hlo : kIntMin < lo)
    (hhi : hi < kIntMax) (ms : Int) :
    (clampReport field lo hi (clamp kIntMin kIntMax ms)).applied = clamp lo hi ms ∧
    ((clampReport field lo hi (clamp kIntMin kIntMax ms)).clamped = true ↔
      ¬ (lo ≤ ms ∧ ms ≤ hi)) := by
  constructor
  · rw [clampReport_applied field h, clamp_clamp hlo.le hhi.le h]
  · rw [clampReport_clamped field h]
    unfold clamp
    omega

end Parameters

end Csopesy
