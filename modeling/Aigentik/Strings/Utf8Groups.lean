import Aigentik.Strings.Utf8
import Mathlib.InformationTheory.Coding.UniquelyDecodable

/-! Bytes that are divided into groups, each a leading byte with the continuation bytes that it announces, and which of
the groups are characters. -/

namespace Utf8

open InformationTheory

variable {k : ℕ} {a b : UInt8} {g bs : Bytes}

/-- A leading byte with as many continuation bytes as it announces. -/
def IsGroup : Bytes → Prop
  | [] => False
  | a :: tails => width a = some (tails.length + 1) ∧ ∀ b ∈ tails, IsTail b

instance : DecidablePred IsGroup
  | [] => inferInstanceAs (Decidable False)
  | a :: tails => inferInstanceAs (Decidable (width a = some (tails.length + 1) ∧ ∀ b ∈ tails, IsTail b))

/-- The code point that a group spells. -/
def codePoint : Bytes → ℕ
  | [a] => a.toNat
  | [a, b] => a.toNat % 0x20 * 0x40 + b.toNat % 0x40
  | [a, b, c] => (a.toNat % 0x10 * 0x40 + b.toNat % 0x40) * 0x40 + c.toNat % 0x40
  | [a, b, c, d] => ((a.toNat % 0x08 * 0x40 + b.toNat % 0x40) * 0x40 + c.toNat % 0x40) * 0x40 + d.toNat % 0x40
  | _ => 0

/-- The least code point that needs so many bytes. -/
def leastOf : ℕ → ℕ
  | 2 => 0x80
  | 3 => 0x800
  | 4 => 0x10000
  | _ => 0

/-- An overlong form, a surrogate, or a code point above U+10FFFF. -/
def IllFormed (g : Bytes) : Prop :=
  codePoint g < leastOf g.length ∨ (0xD800 ≤ codePoint g ∧ codePoint g ≤ 0xDFFF) ∨ 0x10FFFF < codePoint g

instance : DecidablePred IllFormed := fun _ ↦ inferInstanceAs (Decidable (_ ∨ _))

/-- A sequence of characters. -/
def WellFormed (bs : Bytes) : Prop := ∃ chars : List Bytes, bs = chars.flatten ∧ ∀ c ∈ chars, IsChar c

theorem width_eq_some (h : width b = some k) :
    (k = 1 ∧ b.toNat ≤ 0x7F) ∨ (k = 2 ∧ 0xC0 ≤ b.toNat ∧ b.toNat ≤ 0xDF) ∨
      (k = 3 ∧ 0xE0 ≤ b.toNat ∧ b.toNat ≤ 0xEF) ∨ (k = 4 ∧ 0xF0 ≤ b.toNat ∧ b.toNat ≤ 0xF7) := by
  rw [width_eq] at h
  simp only [UInt8.le_iff_toNat_le, UInt8.reduceToNat] at h
  grind

theorem isTail_iff_toNat : IsTail b ↔ 0x80 ≤ b.toNat ∧ b.toNat ≤ 0xBF := by
  simp only [IsTail, UInt8.le_iff_toNat_le, UInt8.reduceToNat]

theorem IsChar.isGroup (h : IsChar g) : IsGroup g := by
  obtain ⟨a, tails, rfl, hwidth, htails⟩ := h.shape
  exact ⟨hwidth, htails⟩

theorem isGroup_cases (h : IsGroup g) :
    (∃ a, g = [a] ∧ a.toNat ≤ 0x7F) ∨
    (∃ a b, g = [a, b] ∧ (0xC0 ≤ a.toNat ∧ a.toNat ≤ 0xDF) ∧ IsTail b) ∨
    (∃ a b c, g = [a, b, c] ∧ (0xE0 ≤ a.toNat ∧ a.toNat ≤ 0xEF) ∧ IsTail b ∧ IsTail c) ∨
    ∃ a b c d, g = [a, b, c, d] ∧ (0xF0 ≤ a.toNat ∧ a.toNat ≤ 0xF7) ∧ IsTail b ∧ IsTail c ∧ IsTail d := by
  cases g with
  | nil => exact h.elim
  | cons a tails =>
    obtain ⟨hwidth, htails⟩ := h
    rcases width_eq_some hwidth with ⟨hlen, ha⟩ | ⟨hlen, ha⟩ | ⟨hlen, ha⟩ | ⟨hlen, ha⟩
    · obtain rfl := List.length_eq_zero_iff.mp (Nat.succ.inj hlen)
      exact .inl ⟨a, rfl, ha⟩
    · obtain ⟨b, rfl⟩ := List.length_eq_one_iff.mp (Nat.succ.inj hlen)
      exact .inr (.inl ⟨a, b, rfl, ha, htails b (by simp)⟩)
    · obtain ⟨b, c, rfl⟩ := List.length_eq_two.mp (Nat.succ.inj hlen)
      exact .inr (.inr (.inl ⟨a, b, c, rfl, ha, htails b (by simp), htails c (by simp)⟩))
    · obtain ⟨b, c, d, rfl⟩ := List.length_eq_three.mp (Nat.succ.inj hlen)
      exact .inr (.inr (.inr ⟨a, b, c, d, rfl, ha, htails b (by simp), htails c (by simp), htails d (by simp)⟩))

/-- The groups that are characters are those that are not ill-formed. -/
theorem IsGroup.isChar_iff (h : IsGroup g) : IsChar g ↔ ¬IllFormed g := by
  rcases isGroup_cases h with ⟨a, rfl, ha⟩ | ⟨a, b, rfl, ha, hb⟩ | ⟨a, b, c, rfl, ha, hb, hc⟩ |
    ⟨a, b, c, d, rfl, ha, hb, hc, hd⟩
  · simp only [IsChar, IllFormed, codePoint, leastOf, List.length_singleton, UInt8.le_iff_toNat_le, UInt8.reduceToNat]
    omega
  · rw [isTail_iff_toNat] at hb
    simp only [IsChar, IllFormed, codePoint, leastOf, List.length_cons, List.length_nil, isTail_iff_toNat,
      UInt8.le_iff_toNat_le, UInt8.reduceToNat]
    omega
  · rw [isTail_iff_toNat] at hb hc
    simp only [IsChar, IllFormed, codePoint, leastOf, List.length_cons, List.length_nil, isTail_iff_toNat,
      UInt8.le_iff_toNat_le, ← UInt8.toNat_inj, UInt8.reduceToNat, ne_eq]
    omega
  · rw [isTail_iff_toNat] at hb hc hd
    simp only [IsChar, IllFormed, codePoint, leastOf, List.length_cons, List.length_nil, isTail_iff_toNat,
      UInt8.le_iff_toNat_le, ← UInt8.toNat_inj, UInt8.reduceToNat]
    omega

theorem whole_of_isGroup (h : IsGroup g) : Whole g := by
  cases g with
  | nil => exact h.elim
  | cons a tails =>
    rw [Whole, scan_cons, step, h.1]
    exact scan_tails h.2 0

theorem whole_flatten {groups : List Bytes} (h : ∀ g ∈ groups, IsGroup g) : Whole groups.flatten := by
  induction groups with
  | nil => exact whole_nil
  | cons g groups ih =>
    rw [List.flatten_cons, (whole_of_isGroup (h g List.mem_cons_self)).append]
    exact ih fun g hg ↦ h g (List.mem_cons_of_mem _ hg)

/-- Bytes that end the groups begin with what the first group still lacks. -/
theorem exists_tails (h : scan k bs = some 0) :
    ∃ tails rest, bs = tails ++ rest ∧ tails.length = k ∧ (∀ b ∈ tails, IsTail b) ∧ Whole rest := by
  induction k generalizing bs with
  | zero => exact ⟨[], bs, rfl, rfl, by simp, h⟩
  | succ k ih =>
    cases bs with
    | nil => cases h
    | cons b bs =>
      rw [scan_cons, step] at h
      split at h
      · rename_i hb
        obtain ⟨tails, rest, rfl, hlen, htails, hrest⟩ := ih h
        refine ⟨b :: tails, rest, rfl, congrArg Nat.succ hlen, fun c hc ↦ ?_, hrest⟩
        rcases List.mem_cons.mp hc with rfl | hc
        · exact (isTail_iff c).mpr hb
        · exact htails c hc
      · cases h

theorem exists_group (h : Whole (a :: bs)) : ∃ g rest, a :: bs = g ++ rest ∧ IsGroup g ∧ Whole rest := by
  rw [Whole, scan_cons] at h
  obtain ⟨k, hstep, hscan⟩ := Option.bind_eq_some_iff.mp h
  obtain ⟨n, hwidth, rfl⟩ := Option.map_eq_some_iff.mp hstep
  obtain ⟨tails, rest, rfl, hlen, htails, hrest⟩ := exists_tails hscan
  have hpos : 0 < n := by
    rcases width_eq_some hwidth with h | h | h | h <;> omega
  refine ⟨a :: tails, rest, rfl, ⟨?_, htails⟩, hrest⟩
  rw [hwidth, hlen]
  exact congrArg some (Nat.succ_pred_eq_of_pos hpos).symm

theorem whole_iff_groups : Whole bs ↔ ∃ groups : List Bytes, bs = groups.flatten ∧ ∀ g ∈ groups, IsGroup g := by
  refine ⟨fun h ↦ ?_, fun h ↦ ?_⟩
  · induction hn : bs.length using Nat.strong_induction_on generalizing bs with
    | _ n ih =>
      cases bs with
      | nil => exact ⟨[], rfl, by simp⟩
      | cons a bs =>
        obtain ⟨g, rest, heq, hg, hrest⟩ := exists_group h
        have hlt : rest.length < n := by
          have hg' : g ≠ [] := fun hnil ↦ by rw [hnil] at hg; exact hg
          have hlen := congrArg List.length heq
          rw [List.length_append] at hlen
          have hpos := List.length_pos_iff.mpr hg'
          omega
        obtain ⟨groups, rfl, hgroups⟩ := ih rest.length hlt hrest rfl
        refine ⟨g :: groups, by rw [heq, List.flatten_cons], fun g' hg' ↦ ?_⟩
        rcases List.mem_cons.mp hg' with rfl | hg'
        · exact hg
        · exact hgroups g' hg'
  · obtain ⟨groups, rfl, hgroups⟩ := h
    exact whole_flatten hgroups

/-- The leading byte says where its group ends. -/
theorem IsGroup.eq_of_append_eq {g' cs : Bytes} (h : IsGroup g) (h' : IsGroup g') (heq : g ++ bs = g' ++ cs) :
    g = g' ∧ bs = cs := by
  refine List.append_inj heq ?_
  cases g with
  | nil => exact h.elim
  | cons a tails =>
    cases g' with
    | nil => exact h'.elim
    | cons a' tails' =>
      have hhead : a = a' := (List.cons.inj heq).1
      have hwidth := h.1
      rw [hhead, h'.1] at hwidth
      exact (Option.some.inj hwidth).symm

theorem uniquelyDecodable_groups : UniquelyDecodable {g | IsGroup g} := by
  intro groups groups' h h' heq
  induction groups generalizing groups' with
  | nil =>
    cases groups' with
    | nil => rfl
    | cons g' groups' =>
      rw [List.flatten_nil, List.flatten_cons] at heq
      have hg' : IsGroup g' := h' g' List.mem_cons_self
      rw [(List.append_eq_nil_iff.mp heq.symm).1] at hg'
      exact hg'.elim
  | cons g groups ih =>
    have hg : IsGroup g := h g List.mem_cons_self
    cases groups' with
    | nil =>
      rw [List.flatten_nil, List.flatten_cons] at heq
      rw [(List.append_eq_nil_iff.mp heq).1] at hg
      exact hg.elim
    | cons g' groups' =>
      rw [List.flatten_cons, List.flatten_cons] at heq
      obtain ⟨rfl, hrest⟩ := hg.eq_of_append_eq (h' g' List.mem_cons_self) heq
      rw [ih groups' (fun g hg ↦ h g (List.mem_cons_of_mem _ hg)) (fun g hg ↦ h' g (List.mem_cons_of_mem _ hg)) hrest]

theorem WellFormed.whole (h : WellFormed bs) : Whole bs := by
  obtain ⟨chars, rfl, hchars⟩ := h
  exact whole_flatten fun c hc ↦ (hchars c hc).isGroup

/-- What divides into groups is well-formed exactly if none of the groups is ill-formed. -/
theorem wellFormed_flatten_iff {groups : List Bytes} (h : ∀ g ∈ groups, IsGroup g) :
    WellFormed groups.flatten ↔ ∀ g ∈ groups, ¬IllFormed g := by
  refine ⟨fun hwell g hg ↦ ?_, fun hnone ↦ ⟨groups, rfl, fun g hg ↦ (h g hg).isChar_iff.mpr (hnone g hg)⟩⟩
  obtain ⟨chars, heq, hchars⟩ := hwell
  obtain rfl := uniquelyDecodable_groups groups chars h (fun c hc ↦ (hchars c hc).isGroup) heq
  exact (h g hg).isChar_iff.mp (hchars g hg)

end Utf8
