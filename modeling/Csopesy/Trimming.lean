import Csopesy.Bytes

/-! # What trimming leaves

`Trims left right s t` says what the trimming loops are for: `s` is `t` between
bytes of the two classes, and `t` is empty or begins and ends with a byte outside
them.  `trimWith` computes such a `t` (`trims_trimWith`), and there is no other
(`Trims.trimWith_eq`).  What the functions of the source trim before and after they
cut is then read by naming the pieces.
-/
namespace Csopesy

-- `UInt8` is finite, and without these `decide` tries every byte there is
instance decidableForallBytes (s : Bytes) (p : UInt8 → Prop) [DecidablePred p] :
    Decidable (∀ c ∈ s, p c) := List.decidableBAll p s

instance decidableForallByte (o : Option UInt8) (p : UInt8 → Prop) [DecidablePred p] :
    Decidable (∀ c ∈ o, p c) := Option.decidableForallMem o

/-- `t` neither begins with a byte of `left` nor ends with a byte of `right`. -/
structure Trimmed (left right : UInt8 → Bool) (t : Bytes) : Prop where
  head : ∀ c ∈ t.head?, left c = false
  last : ∀ c ∈ t.getLast?, right c = false

/-- `t` is what remains of `s`. -/
def Trims (left right : UInt8 → Bool) (s t : Bytes) : Prop :=
  ∃ pre post, s = pre ++ t ++ post ∧ (∀ c ∈ pre, left c = true) ∧ (∀ c ∈ post, right c = true) ∧
    Trimmed left right t

section
variable {left right : UInt8 → Bool} {s t : Bytes}

theorem Trims.trimmed (h : Trims left right s t) : Trimmed left right t := by
  obtain ⟨_, _, -, -, -, htrimmed⟩ := h
  exact htrimmed

theorem trimmed_of_forall (hleft : ∀ c ∈ t, left c = false) (hright : ∀ c ∈ t, right c = false) :
    Trimmed left right t :=
  ⟨fun c hc => hleft c (List.mem_of_head? hc), fun c hc => hright c (List.mem_of_getLast? hc)⟩

theorem Trimmed.append (hs : Trimmed left right s) (ht : Trimmed left right t) :
    Trimmed left right (s ++ t) := by
  constructor
  · intro c hc
    rw [List.head?_append, Option.mem_def, Option.or_eq_some_iff] at hc
    rcases hc with hc | ⟨-, hc⟩
    · exact hs.head c hc
    · exact ht.head c hc
  · intro c hc
    rw [List.getLast?_append, Option.mem_def, Option.or_eq_some_iff] at hc
    rcases hc with hc | ⟨-, hc⟩
    · exact ht.last c hc
    · exact hs.last c hc

/-- Anything may stand between two trimmed strings that are not empty. -/
theorem Trimmed.around (hs : Trimmed left right s) (hs' : s ≠ []) (ht : Trimmed left right t)
    (ht' : t ≠ []) (mid : Bytes) : Trimmed left right (s ++ (mid ++ t)) := by
  constructor
  · intro c hc
    rw [List.head?_append_of_ne_nil s hs'] at hc
    exact hs.head c hc
  · intro c hc
    rw [← List.append_assoc, List.getLast?_append_of_ne_nil _ ht'] at hc
    exact ht.last c hc

/-- Nothing is trimmed from what is trimmed. -/
theorem Trimmed.trims (h : Trimmed left right t) : Trims left right t t :=
  ⟨[], [], by simp, by simp, by simp, h⟩

/-- Fewer bytes to trim. -/
theorem Trimmed.mono {left' right' : UInt8 → Bool} (h : Trimmed left right t)
    (hleft : ∀ c, left' c = true → left c = true)
    (hright : ∀ c, right' c = true → right c = true) : Trimmed left' right' t := by
  constructor
  · intro c hc
    by_contra hkept
    exact absurd (hleft c (by simpa using hkept)) (by simp [h.head c hc])
  · intro c hc
    by_contra hkept
    exact absurd (hright c (by simpa using hkept)) (by simp [h.last c hc])

theorem dropWhile_of_head (h : ∀ c ∈ t.head?, left c = false) : t.dropWhile left = t := by
  cases t with
  | nil => rfl
  | cons c t => rw [List.dropWhile_cons_of_neg (by rw [h c rfl]; exact Bool.false_ne_true)]

theorem rdropWhile_of_last (h : ∀ c ∈ t.getLast?, right c = false) : t.rdropWhile right = t := by
  rw [List.rdropWhile_eq_self_iff]
  intro hne
  rw [h _ (List.getLast?_eq_some_getLast hne)]
  exact Bool.false_ne_true

theorem rdropWhile_append (h : ∀ c ∈ s, right c = true) :
    (t ++ s).rdropWhile right = t.rdropWhile right := by
  unfold List.rdropWhile
  rw [List.reverse_append, List.dropWhile_append_of_pos]
  exact fun c hc => h c (List.mem_reverse.mp hc)

/-- **What remains is unique**: it is what `trimWith` computes. -/
theorem Trims.trimWith_eq (h : Trims left right s t) : trimWith left right s = t := by
  obtain ⟨pre, post, rfl, hpre, hpost, htrimmed⟩ := h
  unfold trimWith
  rw [List.append_assoc, List.dropWhile_append_of_pos hpre]
  cases t with
  | nil =>
    rw [List.nil_append, List.rdropWhile_eq_nil_iff]
    exact fun c hc => hpost c (List.dropWhile_suffix left |>.subset hc)
  | cons c t =>
    have hkept : (c :: t ++ post).dropWhile left = c :: t ++ post :=
      dropWhile_of_head fun d hd => htrimmed.head d hd
    rw [hkept, rdropWhile_append hpost, rdropWhile_of_last htrimmed.last]

/-- The first byte that `dropWhile` keeps. -/
theorem head?_dropWhile_kept (p : UInt8 → Bool) (s : Bytes) :
    ∀ c ∈ (s.dropWhile p).head?, p c = false := by
  intro c hc
  have hnot := List.head?_dropWhile_not p s
  rw [hc] at hnot
  simpa using hnot

theorem getLast?_rdropWhile_kept (p : UInt8 → Bool) (s : Bytes) :
    ∀ c ∈ (s.rdropWhile p).getLast?, p c = false := by
  intro c hc
  have hne : s.rdropWhile p ≠ [] := List.ne_nil_of_mem (List.mem_of_getLast? hc)
  have hlast : (s.rdropWhile p).getLast hne = c :=
    Option.some.inj ((List.getLast?_eq_some_getLast hne).symm.trans hc)
  rw [← hlast]
  exact Bool.eq_false_of_not_eq_true (List.rdropWhile_last_not p s hne)

theorem trims_trimWith (left right : UInt8 → Bool) (s : Bytes) :
    Trims left right s (trimWith left right s) := by
  refine ⟨s.takeWhile left, (s.dropWhile left).rtakeWhile right, ?_, ?_, ?_, ?_, ?_⟩
  · unfold trimWith
    rw [List.append_assoc, List.rdropWhile_append_rtakeWhile, List.takeWhile_append_dropWhile]
  · exact fun c hc => List.mem_takeWhile_imp hc
  · exact fun c hc => List.mem_rtakeWhile_imp hc
  · -- the first byte is the first byte that `dropWhile` kept
    intro c hc
    obtain ⟨rest, hrest⟩ : trimWith left right s <+: s.dropWhile left :=
      List.rdropWhile_prefix right _
    have hkept : (s.dropWhile left).head? = some c := by
      rw [← hrest, List.head?_append, hc]
      rfl
    exact head?_dropWhile_kept left s c hkept
  · exact getLast?_rdropWhile_kept right (s.dropWhile left)

end

/-- A cut at the first byte of a class. -/
theorem findIdx?_cases (p : UInt8 → Bool) (s : Bytes) :
    (s.findIdx? p = none ∧ (s.dropWhile fun c => !p c) = []) ∨
    ∃ i c, s.findIdx? p = some i ∧ s.take i = (s.takeWhile fun c => !p c) ∧
      s.drop i = (s.dropWhile fun c => !p c) ∧
      (s.dropWhile fun c => !p c) = c :: s.drop (i + 1) := by
  induction s with
  | nil => exact .inl ⟨rfl, rfl⟩
  | cons c s ih =>
    rw [List.findIdx?_cons]
    by_cases hc : p c = true
    · rw [List.takeWhile_cons_of_neg (by simpa using hc),
        List.dropWhile_cons_of_neg (by simpa using hc)]
      exact .inr ⟨0, c, if_pos hc, rfl, rfl, rfl⟩
    · rw [if_neg hc, List.takeWhile_cons_of_pos (by simpa using hc),
        List.dropWhile_cons_of_pos (by simpa using hc)]
      rcases ih with ⟨hnone, hdrop⟩ | ⟨i, d, hsome, htake, hdrop, hat⟩
      · exact .inl ⟨by rw [hnone]; rfl, hdrop⟩
      · exact .inr ⟨i + 1, d, by rw [hsome]; rfl, by rw [List.take_succ_cons, htake], hdrop, hat⟩

end Csopesy
