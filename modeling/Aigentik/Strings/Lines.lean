import Aigentik.Strings.Text

namespace Strings

def SingleLine (s : Str) : Prop := '\n' ∉ s ∧ '\r' ∉ s

instance (s : Str) : Decidable (SingleLine s) := inferInstanceAs (Decidable (_ ∧ _))

variable {s t : Str}

/-! Trimming -/

theorem rdropWhile_append (p : Char → Bool) (h : t.rdropWhile p ≠ []) :
    (s ++ t).rdropWhile p = s ++ t.rdropWhile p := by
  unfold List.rdropWhile at h ⊢
  rw [List.reverse_append, List.dropWhile_append, if_neg (by simpa using h), List.reverse_append,
    List.reverse_reverse]

theorem rdropWhile_append_of_all (p : Char → Bool) (h : t.rdropWhile p = []) :
    (s ++ t).rdropWhile p = s.rdropWhile p := by
  rw [List.rdropWhile_eq_nil_iff] at h
  unfold List.rdropWhile
  rw [List.reverse_append, List.dropWhile_append, List.dropWhile_eq_nil_iff.mpr (by simpa using h), List.isEmpty_nil,
    if_pos rfl]

theorem rdropWhile_append_of_self (p : Char → Bool) (hs : s.rdropWhile p = s) :
    (s ++ t).rdropWhile p = s ++ t.rdropWhile p := by
  by_cases h : t.rdropWhile p = []
  · rw [rdropWhile_append_of_all p h, h, hs, List.append_nil]
  · exact rdropWhile_append p h

theorem dropWhile_rdropWhile (p : Char → Bool) : (s.rdropWhile p).dropWhile p = (s.dropWhile p).rdropWhile p := by
  induction s with
  | nil => rfl
  | cons c s ih =>
    cases hc : p c with
    | true =>
      rw [List.dropWhile_cons_of_pos hc, ← ih, ← List.singleton_append]
      by_cases h : s.rdropWhile p = []
      · rw [rdropWhile_append_of_all p h, h, List.rdropWhile_singleton, if_pos hc]
      · rw [rdropWhile_append p h, List.singleton_append, List.dropWhile_cons_of_pos hc]
    | false =>
      have hself : List.rdropWhile p [c] = [c] := by rw [List.rdropWhile_singleton, if_neg (by simp [hc])]
      rw [List.dropWhile_cons_of_neg (by simp [hc]), ← List.singleton_append, rdropWhile_append_of_self p hself,
        List.singleton_append, List.dropWhile_cons_of_neg (by simp [hc])]

theorem trim_cons {c : Char} (hc : isWhitespace c = false) : trim (c :: s) = (c :: s).rdropWhile isWhitespace := by
  rw [trim, List.dropWhile_cons_of_neg (by simp [hc])]

theorem trim_blank_cons {c : Char} (hc : isWhitespace c = true) : trim (c :: s) = trim s := by
  rw [trim, List.dropWhile_cons_of_pos hc, trim]

theorem trim_eq_nil_iff : trim s = [] ↔ isBlank s = true := by
  rw [trim, List.rdropWhile_eq_nil_iff, isBlank, List.all_eq_true]
  constructor
  · intro h c hc
    rw [← List.takeWhile_append_dropWhile (p := isWhitespace) (l := s)] at hc
    rcases List.mem_append.mp hc with hc | hc
    · exact List.mem_takeWhile_imp hc
    · exact h c hc
  · intro h c hc
    exact h c (List.dropWhile_sublist _ |>.mem hc)

theorem isBlank_trim : isBlank (trim s) = isBlank s := by
  rw [Bool.eq_iff_iff, ← trim_eq_nil_iff, trim_trim, trim_eq_nil_iff]

theorem trim_subset : trim s ⊆ s :=
  List.Subset.trans (List.rdropWhile_prefix _ _).subset (List.dropWhile_sublist _).subset

theorem trim_length_le (s : Str) : (trim s).length ≤ s.length :=
  (List.rdropWhile_prefix _ _).length_le.trans (List.dropWhile_sublist _).length_le

theorem trim_rdropWhile : trim (s.rdropWhile isWhitespace) = trim s := by
  rw [trim, dropWhile_rdropWhile, List.rdropWhile_idempotent, trim]

/-! Lines -/

theorem SingleLine.append (hs : SingleLine s) (ht : SingleLine t) : SingleLine (s ++ t) :=
  ⟨fun h ↦ (List.mem_append.mp h).elim hs.1 ht.1, fun h ↦ (List.mem_append.mp h).elim hs.2 ht.2⟩

theorem SingleLine.rdropWhile (h : SingleLine s) (p : Char → Bool) : SingleLine (s.rdropWhile p) :=
  ⟨fun hm ↦ h.1 ((List.rdropWhile_prefix p s).subset hm),
    fun hm ↦ h.2 ((List.rdropWhile_prefix p s).subset hm)⟩

theorem linesFrom_cons (acc : Str) {c : Char} (hn : c ≠ '\n') (hr : c ≠ '\r') :
    linesFrom acc (c :: s) = linesFrom (c :: acc) s := by
  rw [linesFrom]
  · intro _ h
    exact (hr h).elim
  · exact hr
  · exact hn

theorem SingleLine.of_cons {c : Char} (h : SingleLine (c :: s)) : c ≠ '\n' ∧ c ≠ '\r' ∧ SingleLine s := by
  obtain ⟨hn, hr⟩ := h
  simp only [List.mem_cons, not_or] at hn hr
  exact ⟨Ne.symm hn.1, Ne.symm hr.1, hn.2, hr.2⟩

theorem linesFrom_line (acc : Str) (hs : SingleLine s) : linesFrom acc s = [acc.reverse ++ s] := by
  induction s generalizing acc with
  | nil => simp [linesFrom]
  | cons c s ih =>
    obtain ⟨hn, hr, hs⟩ := hs.of_cons
    rw [linesFrom_cons acc hn hr, ih _ hs]
    simp

theorem linesFrom_append (acc : Str) (hs : SingleLine s) :
    linesFrom acc (s ++ '\n' :: t) = (acc.reverse ++ s) :: lines t := by
  induction s generalizing acc with
  | nil => simp [linesFrom, lines]
  | cons c s ih =>
    obtain ⟨hn, hr, hs⟩ := hs.of_cons
    rw [List.cons_append, linesFrom_cons acc hn hr, ih _ hs]
    simp

theorem linesFrom_ne_nil (acc : Str) : linesFrom acc s ≠ [] := by
  fun_induction linesFrom acc s with
  | case4 => assumption
  | _ => exact List.cons_ne_nil _ _

theorem joinToString_cons (sep : Str) {ls : List Str} (h : ls ≠ []) :
    joinToString sep (s :: ls) = s ++ sep ++ joinToString sep ls := by
  cases ls with
  | nil => exact (h rfl).elim
  | cons l ls => rfl

theorem joinToString_append (sep : Str) {ls ms : List Str} (hls : ls ≠ []) (hms : ms ≠ []) :
    joinToString sep (ls ++ ms) = joinToString sep ls ++ (sep ++ joinToString sep ms) := by
  induction ls with
  | nil => exact absurd rfl hls
  | cons l ls ih =>
    by_cases hnil : ls = []
    · subst hnil
      rw [List.singleton_append, joinToString_cons sep hms, List.append_assoc]
      rfl
    · rw [List.cons_append, joinToString_cons sep (List.append_ne_nil_of_left_ne_nil hnil ms), ih hnil,
        joinToString_cons sep hnil, List.append_assoc (l ++ sep)]

theorem joinToString_linesFrom (acc : Str) (h : '\r' ∉ s) :
    joinToString "\n" (linesFrom acc s) = acc.reverse ++ s := by
  fun_induction linesFrom acc s with
  | case1 | case2 => exact (h List.mem_cons_self).elim
  | case3 acc s ih =>
    rw [joinToString_cons _ (linesFrom_ne_nil []), ih (fun hs ↦ h (List.mem_cons_of_mem _ hs))]
    simp
  | case4 acc c s _ _ _ ih =>
    rw [ih (fun hs ↦ h (List.mem_cons_of_mem _ hs))]
    simp
  | case5 => simp [joinToString]

theorem not_mem_joinToString_linesFrom (acc : Str) (h : '\r' ∉ acc) :
    '\r' ∉ joinToString "\n" (linesFrom acc s) := by
  fun_induction linesFrom acc s with
  | case1 acc s ih | case2 acc s _ ih | case3 acc s ih =>
    rw [joinToString_cons _ (linesFrom_ne_nil [])]
    simp only [List.mem_append, List.mem_reverse, not_or]
    exact ⟨⟨h, by decide⟩, ih List.not_mem_nil⟩
  | case4 acc c s _ hr _ ih =>
    apply ih
    simpa [h] using Ne.symm hr
  | case5 => simpa [joinToString] using h

end Strings
