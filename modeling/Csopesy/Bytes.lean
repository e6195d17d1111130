import Mathlib.Data.List.DropRight
import Mathlib.Tactic

/-! # Byte strings

The program handles `std::string` values byte by byte: one byte is one terminal
column, and a byte is printable exactly in the range 0x20..0x7E.  This module
fixes that representation, the literals of the source (`ascii`), the decimal
printing of `std::to_string`, and the trimming loop that three functions of the
source write out separately.
-/
namespace Csopesy

/-- A `std::string`. -/
abbrev Bytes := List UInt8

/-- The bytes of an ASCII literal of the source. -/
def ascii (s : String) : Bytes := s.toList.map fun c => UInt8.ofNat c.toNat

/-- `' '` -/
def space : UInt8 := 0x20

/-- `'\n'` -/
def newline : UInt8 := 0x0A

/-- `isPrintableAscii`: the renderer treats one such byte as one column. -/
def isPrintableAscii (c : UInt8) : Bool := decide (0x20 ≤ c) && decide (c ≤ 0x7E)

/-- `std::to_string`. -/
def intToString (n : Int) : Bytes := ascii (toString n)

/-- Remove a prefix of bytes that satisfy `left`, then a suffix of bytes that
satisfy `right`.  The interpreter, the option parser and `setText` each write
this pair of loops with their own byte classes. -/
def trimWith (left right : UInt8 → Bool) (s : Bytes) : Bytes :=
  (s.dropWhile left).rdropWhile right

/-- Successive `std::getline` calls until the stream is exhausted; `line` is what
the current call has read.  A final newline ends the last line and opens no
further one. -/
def getLines.go (line : Bytes) : Bytes → List Bytes
  | [] => if line.isEmpty then [] else [line]
  | c :: rest => if c = newline then line :: getLines.go [] rest else getLines.go (line ++ [c]) rest

def getLines (content : Bytes) : List Bytes := getLines.go [] content

theorem getLines_go_append {rest : Bytes} : ∀ {tail line : Bytes}, newline ∉ tail →
    getLines.go line (tail ++ newline :: rest) = (line ++ tail) :: getLines.go [] rest
  | [], line, _ => by simp [getLines.go]
  | c :: tail, line, h => by
    have hc : c ≠ newline := fun he => h (he ▸ List.mem_cons_self)
    have htail : newline ∉ tail := fun hm => h (List.mem_cons_of_mem _ hm)
    rw [List.cons_append, getLines.go, if_neg hc, getLines_go_append htail, List.append_assoc,
      List.singleton_append]

/-- Newline-terminated lines are read back one by one. -/
theorem getLines_terminated {lines : List Bytes} (h : ∀ l ∈ lines, newline ∉ l) :
    getLines (lines.flatMap (· ++ [newline])) = lines := by
  unfold getLines
  induction lines with
  | nil => rfl
  | cons l lines ih =>
    rw [List.flatMap_cons, List.append_assoc, List.singleton_append,
      getLines_go_append (h l List.mem_cons_self), List.nil_append,
      ih fun m hm => h m (List.mem_cons_of_mem _ hm)]

theorem splitOn_newline_cons (c : UInt8) (text : Bytes) :
    (c :: text).splitOn newline = if c = newline then [] :: text.splitOn newline
      else (text.splitOn newline).modifyHead (c :: ·) := by
  have hcons : (c :: text).splitOn newline = if (c == newline) = true then
      [] :: text.splitOn newline else (text.splitOn newline).modifyHead (c :: ·) :=
    List.splitOnP_cons_eq_if_modifyHead c text
  rw [hcons]
  by_cases hc : c = newline
  · rw [if_pos hc, if_pos (by simpa using hc)]
  · rw [if_neg hc, if_neg (by simpa using hc)]

theorem modifyHead_nil_append (ls : List Bytes) : ls.modifyHead ([] ++ ·) = ls := by
  cases ls <;> rfl

/-! ## Printable strings -/

/-- Every byte of the string is printable ASCII. -/
def Printable (s : Bytes) : Prop := ∀ c ∈ s, isPrintableAscii c = true

instance (s : Bytes) : Decidable (Printable s) :=
  decidable_of_iff (s.all isPrintableAscii = true) List.all_eq_true

namespace Printable
variable {s t : Bytes}

@[simp] theorem nil : Printable [] := fun _ h => absurd h List.not_mem_nil

theorem of_subset (ht : Printable t) (h : s ⊆ t) : Printable s := fun c hc => ht c (h hc)

theorem append (hs : Printable s) (ht : Printable t) : Printable (s ++ t) := fun c hc =>
  (List.mem_append.mp hc).elim (hs c) (ht c)

theorem take (hs : Printable s) (n : Nat) : Printable (s.take n) :=
  hs.of_subset (List.take_subset n s)

theorem drop (hs : Printable s) (n : Nat) : Printable (s.drop n) :=
  hs.of_subset (List.drop_subset n s)

theorem dropLast (hs : Printable s) : Printable s.dropLast :=
  hs.of_subset (List.dropLast_subset s)

theorem singleton {c : UInt8} (h : isPrintableAscii c = true) : Printable [c] := fun d hd => by
  rw [List.mem_singleton.mp hd]; exact h

theorem newline_notMem (hs : Printable s) : newline ∉ s := fun h => absurd (hs _ h) (by decide)

theorem spaces (n : Nat) : Printable (List.replicate n space) := fun c hc => by
  rw [List.eq_of_mem_replicate hc]; decide

end Printable

theorem trimWith_subset (left right : UInt8 → Bool) (s : Bytes) : trimWith left right s ⊆ s :=
  fun _ hc => (List.dropWhile_suffix left).subset
    ((List.rdropWhile_prefix right (s.dropWhile left)).subset hc)

theorem Printable.trimWith {s : Bytes} (hs : Printable s) (left right : UInt8 → Bool) :
    Printable (trimWith left right s) :=
  hs.of_subset (trimWith_subset left right s)

/-! ## Decimal printing -/

theorem ascii_append (s t : String) : ascii (s ++ t) = ascii s ++ ascii t := by
  simp [ascii]

theorem isPrintableAscii_of_isDigit {c : Char} (h : c.isDigit = true) :
    isPrintableAscii (UInt8.ofNat c.toNat) = true := by
  simp only [Char.isDigit, Bool.and_eq_true, decide_eq_true_eq, ge_iff_le] at h
  obtain ⟨hlo, hhi⟩ := h
  have hlo' : 48 ≤ c.toNat := hlo
  have hhi' : c.toNat ≤ 57 := hhi
  simp only [isPrintableAscii, Bool.and_eq_true, decide_eq_true_eq, UInt8.le_iff_toNat_le,
    UInt8.toNat_ofNat']
  change 32 ≤ c.toNat % 256 ∧ c.toNat % 256 ≤ 126
  omega

theorem printable_natRepr (n : Nat) : Printable (ascii n.repr) := by
  intro b hb
  obtain ⟨c, hc, rfl⟩ := List.mem_map.mp hb
  rw [← Nat.toString_eq_repr, Nat.toString_eq_ofList_toDigits, String.toList_ofList] at hc
  exact isPrintableAscii_of_isDigit (Nat.isDigit_of_mem_toDigits (by decide) (by decide) hc)

/-- The decimal form of an integer is digits after at most one minus sign. -/
theorem printable_intToString (n : Int) : Printable (intToString n) := by
  unfold intToString
  rw [Int.toString_eq_repr, Int.repr_eq_if]
  split
  · exact printable_natRepr _
  · rw [ascii_append]
    exact Printable.append (by decide) (printable_natRepr _)

end Csopesy
