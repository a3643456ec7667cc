import Mathlib.Data.List.Infix
import Mathlib.Data.List.TakeWhile

namespace Utf8

abbrev Bytes := List UInt8

def IsTail (b : UInt8) : Prop := 0x80 ≤ b ∧ b ≤ 0xBF

instance (b : UInt8) : Decidable (IsTail b) := inferInstanceAs (Decidable (_ ∧ _))

/-- A well-formed character: no overlong form, no surrogate, nothing above U+10FFFF. -/
def IsChar : Bytes → Prop
  | [a] => a ≤ 0x7F
  | [a, b] => 0xC2 ≤ a ∧ a ≤ 0xDF ∧ IsTail b
  | [a, b, c] => IsTail c ∧ ((a = 0xE0 ∧ 0xA0 ≤ b ∧ b ≤ 0xBF) ∨
      (a = 0xED ∧ 0x80 ≤ b ∧ b ≤ 0x9F) ∨ (0xE1 ≤ a ∧ a ≤ 0xEF ∧ a ≠ 0xED ∧ IsTail b))
  | [a, b, c, d] => IsTail c ∧ IsTail d ∧ ((a = 0xF0 ∧ 0x90 ≤ b ∧ b ≤ 0xBF) ∨
      (a = 0xF4 ∧ 0x80 ≤ b ∧ b ≤ 0x8F) ∨ (0xF1 ≤ a ∧ a ≤ 0xF3 ∧ IsTail b))
  | _ => False

instance : DecidablePred IsChar
  | [] => inferInstanceAs (Decidable False)
  | [a] => inferInstanceAs (Decidable (a ≤ 0x7F))
  | [a, b] => inferInstanceAs (Decidable (0xC2 ≤ a ∧ a ≤ 0xDF ∧ IsTail b))
  | [a, b, c] => inferInstanceAs (Decidable (IsTail c ∧ ((a = 0xE0 ∧ 0xA0 ≤ b ∧ b ≤ 0xBF) ∨
      (a = 0xED ∧ 0x80 ≤ b ∧ b ≤ 0x9F) ∨ (0xE1 ≤ a ∧ a ≤ 0xEF ∧ a ≠ 0xED ∧ IsTail b))))
  | [a, b, c, d] => inferInstanceAs (Decidable (IsTail c ∧ IsTail d ∧ ((a = 0xF0 ∧ 0x90 ≤ b ∧ b ≤ 0xBF) ∨
      (a = 0xF4 ∧ 0x80 ≤ b ∧ b ≤ 0x8F) ∨ (0xF1 ≤ a ∧ a ≤ 0xF3 ∧ IsTail b))))
  | _ :: _ :: _ :: _ :: _ :: _ => inferInstanceAs (Decidable False)

/-- The number of bytes that a leading byte announces. -/
def width (b : UInt8) : Option ℕ :=
  if b &&& 0x80 = 0 then some 1
  else if b &&& 0xE0 = 0xC0 then some 2
  else if b &&& 0xF0 = 0xE0 then some 3
  else if b &&& 0xF8 = 0xF0 then some 4
  else none

/-- One byte, with the number of continuation bytes that are still to come. -/
def step : ℕ → UInt8 → Option ℕ
  | 0, b => (width b).map Nat.pred
  | k + 1, b => if b &&& 0xC0 = 0x80 then some k else none

def scan (k : ℕ) (bs : Bytes) : Option ℕ := bs.foldlM step k

/-- Every leading byte is followed by as many continuation bytes as it announces. -/
def Whole (bs : Bytes) : Prop := scan 0 bs = some 0

instance (bs : Bytes) : Decidable (Whole bs) := inferInstanceAs (Decidable (_ = _))

/-- The last bytes are a character. -/
def Ends (bs : Bytes) : Prop := ∃ c ∈ bs.tails, IsChar c

instance (bs : Bytes) : Decidable (Ends bs) := inferInstanceAs (Decidable (∃ c ∈ bs.tails, IsChar c))

def cutBackRev : Bytes → Bytes
  | [] => []
  | b :: bs => if Ends (b :: bs).reverse then b :: bs else cutBackRev bs

/-- The bytes up to the last complete character. -/
def cutBack (bs : Bytes) : Bytes := (cutBackRev bs.reverse).reverse

theorem byte_cases {p : UInt8 → Prop} (h : ∀ n : Fin 256, p (UInt8.ofNat n)) (b : UInt8) : p b := by
  have hb := h ⟨b.toNat, b.toNat_lt⟩
  simpa using hb

theorem isTail_iff (b : UInt8) : IsTail b ↔ b &&& 0xC0 = 0x80 :=
  byte_cases (p := fun b ↦ IsTail b ↔ b &&& 0xC0 = 0x80) (by decide +kernel) b

theorem width_eq (b : UInt8) : width b =
    if b ≤ 0x7F then some 1 else if b ≤ 0xBF then none else if b ≤ 0xDF then some 2
    else if b ≤ 0xEF then some 3 else if b ≤ 0xF7 then some 4 else none :=
  byte_cases (p := fun b ↦ width b =
    if b ≤ 0x7F then some 1 else if b ≤ 0xBF then none else if b ≤ 0xDF then some 2
    else if b ≤ 0xEF then some 3 else if b ≤ 0xF7 then some 4 else none) (by decide +kernel) b

theorem width_tail (b : UInt8) (h : IsTail b) : width b = none := by
  rw [width_eq]
  grind [IsTail]

theorem width_one (a : UInt8) (h : a ≤ 0x7F) : width a = some 1 := by
  rw [width_eq, if_pos h]

theorem width_two (a : UInt8) (hlow : 0xC2 ≤ a) (hhigh : a ≤ 0xDF) : width a = some 2 := by
  rw [width_eq]
  grind

theorem width_three (a : UInt8) (hlow : 0xE0 ≤ a) (hhigh : a ≤ 0xEF) : width a = some 3 := by
  rw [width_eq]
  grind

theorem width_four (a : UInt8) (hlow : 0xF0 ≤ a) (hhigh : a ≤ 0xF4) : width a = some 4 := by
  rw [width_eq]
  grind

variable {k n : ℕ} {a b : UInt8} {bs cs : Bytes}

theorem scan_nil (k : ℕ) : scan k [] = some k := rfl

theorem scan_cons (k : ℕ) (b : UInt8) (bs : Bytes) :
    scan k (b :: bs) = (step k b).bind fun k ↦ scan k bs := rfl

theorem scan_append (k : ℕ) (bs cs : Bytes) :
    scan k (bs ++ cs) = (scan k bs).bind fun k ↦ scan k cs :=
  List.foldlM_append

theorem step_tail (h : IsTail b) : step (k + 1) b = some k := if_pos ((isTail_iff b).mp h)

theorem step_lead (h : width b = some n) : step (k + 1) b = none := by
  refine if_neg fun hb ↦ ?_
  rw [width_tail b ((isTail_iff b).mpr hb)] at h
  cases h

/-- Continuation bytes count down what is still to come. -/
theorem scan_tails (h : ∀ b ∈ bs, IsTail b) (k : ℕ) : scan (bs.length + k) bs = some k := by
  induction bs with
  | nil => rw [List.length_nil, Nat.zero_add, scan_nil]
  | cons b bs ih =>
    have hb : IsTail b := h b List.mem_cons_self
    have hbs : ∀ b ∈ bs, IsTail b := fun b hmem ↦ h b (List.mem_cons_of_mem _ hmem)
    have hlen : (b :: bs).length + k = bs.length + k + 1 := by
      rw [List.length_cons]
      omega
    rw [hlen, scan_cons, step_tail hb]
    exact ih hbs

/-- A character is a leading byte with the continuation bytes that it announces. -/
theorem IsChar.shape (h : IsChar bs) :
    ∃ a tails, bs = a :: tails ∧ width a = some (tails.length + 1) ∧ ∀ b ∈ tails, IsTail b := by
  match bs, h with
  | [a], h => exact ⟨a, [], rfl, width_one a h, by simp⟩
  | [a, b], h =>
    obtain ⟨hlow, hhigh, hb⟩ := h
    exact ⟨a, [b], rfl, width_two a hlow hhigh, by simpa using hb⟩
  | [a, b, c], h =>
    obtain ⟨hc, hab⟩ := h
    have hlead : 0xE0 ≤ a ∧ a ≤ 0xEF ∧ IsTail b := by
      rcases hab with ⟨rfl, hb⟩ | ⟨rfl, hb⟩ | ⟨hlow, hhigh, -, hb⟩
      · exact ⟨by decide, by decide, UInt8.le_trans (b := 0xA0) (by decide) hb.1, hb.2⟩
      · exact ⟨by decide, by decide, hb.1, UInt8.le_trans (b := 0x9F) hb.2 (by decide)⟩
      · exact ⟨UInt8.le_trans (b := 0xE1) (by decide) hlow, hhigh, hb⟩
    exact ⟨a, [b, c], rfl, width_three a hlead.1 hlead.2.1, by simpa using ⟨hlead.2.2, hc⟩⟩
  | [a, b, c, d], h =>
    obtain ⟨hc, hd, hab⟩ := h
    have hlead : 0xF0 ≤ a ∧ a ≤ 0xF4 ∧ IsTail b := by
      rcases hab with ⟨rfl, hb⟩ | ⟨rfl, hb⟩ | ⟨hlow, hhigh, hb⟩
      · exact ⟨by decide, by decide, UInt8.le_trans (b := 0x90) (by decide) hb.1, hb.2⟩
      · exact ⟨by decide, by decide, hb.1, UInt8.le_trans (b := 0x8F) hb.2 (by decide)⟩
      · exact ⟨UInt8.le_trans (b := 0xF1) (by decide) hlow, UInt8.le_trans (b := 0xF3) hhigh (by decide), hb⟩
    exact ⟨a, [b, c, d], rfl, width_four a hlead.1 hlead.2.1, by simpa using ⟨hlead.2.2, hc, hd⟩⟩

theorem ends_iff : Ends bs ↔ ∃ c, c <:+ bs ∧ IsChar c := by
  simp only [Ends, List.mem_tails]

theorem Ends.append (h : Ends cs) (bs : Bytes) : Ends (bs ++ cs) := by
  obtain ⟨c, hc, hchar⟩ := ends_iff.mp h
  exact ends_iff.mpr ⟨c, hc.trans (List.suffix_append bs cs), hchar⟩

theorem not_ends_nil : ¬Ends [] := by decide

/-- No character begins inside of whole characters and ends behind them. -/
theorem Ends.of_append (h : Ends (bs ++ cs)) (hbs : Whole bs) (hcs : cs ≠ []) : Ends cs := by
  obtain ⟨c, hc, hchar⟩ := ends_iff.mp h
  obtain ⟨t, ht⟩ := hc
  rcases List.append_eq_append_iff.mp ht with ⟨x, rfl, rfl⟩ | ⟨x, -, rfl⟩
  · cases x with
    | nil => exact ends_iff.mpr ⟨cs, List.suffix_rfl, hchar⟩
    | cons b x =>
      obtain ⟨a, tails, heq, hwidth, htails⟩ := hchar.shape
      obtain ⟨rfl, rfl⟩ := List.cons.inj heq
      have hx : ∀ y ∈ x, IsTail y := fun y hy ↦ htails y (List.mem_append_left cs hy)
      have hpos : 0 < cs.length := List.length_pos_iff.mpr hcs
      have hscan : (scan 0 t).bind (fun k ↦ scan k (b :: x)) = some 0 := by
        rw [← scan_append]
        exact hbs
      obtain ⟨k, -, hk⟩ := Option.bind_eq_some_iff.mp hscan
      cases k with
      | zero =>
        have hstep : step 0 b = some (x.length + cs.length) := by
          rw [step, hwidth]
          exact congrArg some List.length_append
        rw [scan_cons, hstep, Option.bind_some, scan_tails hx] at hk
        have hzero : cs.length = 0 := Option.some.inj hk
        omega
      | succ k =>
        rw [scan_cons, step_lead hwidth] at hk
        cases hk
  · exact ends_iff.mpr ⟨c, List.suffix_append x c, hchar⟩

theorem Whole.append (hbs : Whole bs) : Whole (bs ++ cs) ↔ Whole cs := by
  rw [Whole, scan_append, hbs]
  rfl

theorem whole_nil : Whole [] := rfl

/-- Where characters are cut apart, the second part does not begin as the first does. -/
theorem Whole.head_ne (h : Whole (a :: bs ++ b :: cs)) (hbs : ¬Whole (a :: bs)) : a ≠ b := by
  intro heq
  subst heq
  rw [Whole, scan_append] at h
  obtain ⟨k, hk, hcs⟩ := Option.bind_eq_some_iff.mp h
  cases k with
  | zero => exact hbs hk
  | succ k =>
    rw [scan_cons] at hk hcs
    obtain ⟨m, hlead, -⟩ := Option.bind_eq_some_iff.mp hk
    obtain ⟨num, hwidth, -⟩ := Option.map_eq_some_iff.mp hlead
    rw [step_lead hwidth] at hcs
    cases hcs

theorem cutBackRev_suffix (bs : Bytes) : cutBackRev bs <:+ bs := by
  induction bs with
  | nil => exact List.suffix_rfl
  | cons b bs ih =>
    unfold cutBackRev
    split
    · exact List.suffix_rfl
    · exact ih.trans (List.suffix_cons b bs)

theorem cutBack_isPrefixOf (bs : Bytes) : cutBack bs <+: bs := by
  have h : (cutBackRev bs.reverse).reverse <+: bs.reverse.reverse :=
    List.reverse_prefix.mpr (cutBackRev_suffix bs.reverse)
  rwa [List.reverse_reverse] at h

theorem cutBack_ends (bs : Bytes) : cutBack bs = [] ∨ Ends (cutBack bs) := by
  rw [cutBack]
  generalize bs.reverse = rs
  induction rs with
  | nil => exact .inl rfl
  | cons b rs ih =>
    unfold cutBackRev
    split
    · rename_i h
      exact .inr h
    · exact ih

theorem cutBack_append_singleton (bs : Bytes) (b : UInt8) :
    cutBack (bs ++ [b]) = if Ends (bs ++ [b]) then bs ++ [b] else cutBack bs := by
  rw [cutBack, List.reverse_append, List.reverse_singleton, List.singleton_append, cutBackRev,
    List.reverse_cons, List.reverse_reverse]
  split
  · rw [List.reverse_cons, List.reverse_reverse]
  · rfl

/-- Nothing that ends in a character is longer. -/
theorem cutBack_longest (hcs : cs <+: bs) (h : Ends cs) : cs <+: cutBack bs := by
  induction bs using List.reverseRecOn with
  | nil =>
    rw [List.prefix_nil.mp hcs] at h
    exact absurd h not_ends_nil
  | append_singleton bs b ih =>
    rw [cutBack_append_singleton]
    split
    · exact hcs
    · rename_i hends
      rcases List.prefix_concat_iff.mp hcs with rfl | hcs
      · exact absurd h hends
      · exact ih hcs

theorem cutBack_eq_nil_iff : cutBack bs = [] ↔ ∀ cs, cs <+: bs → ¬Ends cs := by
  refine ⟨fun h cs hcs hends ↦ ?_, fun h ↦ (cutBack_ends bs).resolve_right (h _ (cutBack_isPrefixOf bs))⟩
  have hnil : cs <+: cutBack bs := cutBack_longest hcs hends
  rw [h] at hnil
  rw [List.prefix_nil.mp hnil] at hends
  exact not_ends_nil hends

theorem cutBack_append_iff (hbs : Whole bs) :
    cutBack (bs ++ cs) = bs ↔ (bs = [] ∨ Ends bs) ∧ cutBack cs = [] := by
  constructor
  · intro h
    have hends : bs = [] ∨ Ends bs := h ▸ cutBack_ends (bs ++ cs)
    refine ⟨hends, cutBack_eq_nil_iff.mpr fun p hp hpends ↦ ?_⟩
    have hle : bs ++ p <+: bs := by
      have hlong := cutBack_longest ((List.prefix_append_right_inj bs).mpr hp) (hpends.append bs)
      rwa [h] at hlong
    have hlen := hle.length_le
    rw [List.length_append] at hlen
    have hnil : p = [] := List.length_eq_zero_iff.mp (by omega)
    exact not_ends_nil (hnil ▸ hpends)
  · intro h
    obtain ⟨hends, hcut⟩ := h
    have hle : bs <+: cutBack (bs ++ cs) := by
      rcases hends with rfl | hends
      · exact List.nil_prefix
      · exact cutBack_longest (List.prefix_append bs cs) hends
    obtain ⟨p, hp⟩ := hle
    cases p with
    | nil => rw [← hp, List.append_nil]
    | cons x p =>
      have hpre : x :: p <+: cs := by
        have hcut' := cutBack_isPrefixOf (bs ++ cs)
        rw [← hp] at hcut'
        exact (List.prefix_append_right_inj bs).mp hcut'
      have hxends : Ends (bs ++ x :: p) := by
        rw [hp]
        refine (cutBack_ends (bs ++ cs)).resolve_left fun hnil ↦ ?_
        rw [hnil] at hp
        simp at hp
      exact absurd (hxends.of_append hbs (by simp)) (cutBack_eq_nil_iff.mp hcut _ hpre)

end Utf8
