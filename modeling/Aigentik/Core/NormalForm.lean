import Aigentik.Core.PhoneNormalizer

namespace Aigentik.PhoneNormalizer

open Strings

/-- A result is an E.164 number, it keeps the digits of a number with a `+`, and it is its own result. -/
structure FormatsE164 (P : Platform) : Prop where
  plus : ∀ raw number, P.formatNumberToE164 raw = some number → number = "+" ++ digits number
  keeps : ∀ raw number, P.formatNumberToE164 raw = some number → startsWith raw "+" → digits number = digits raw
  own : ∀ raw number, P.formatNumberToE164 raw = some number → P.formatNumberToE164 number = some number

/-- Normalizing twice is normalizing once, and a number with a `+` and at least ten digits keeps its digits. -/
def IsNormal (P : Platform) (raw : Str) : Prop :=
  toE164 P (toE164 P raw) = toE164 P raw ∧
    (startsWith raw "+" → 10 ≤ (digits raw).length → digits (toE164 P raw) = digits raw)

/-- What the digits of a rejected number give. -/
def fallback (raw : Str) : Str :=
  if (digits raw).length = 10 then "+1" ++ digits raw
  else if (digits raw).length = 11 ∧ startsWith (digits raw) "1" then "+" ++ digits raw
  else if (digits raw).length > 11 then "+" ++ digits raw
  else if startsWith raw "+" ∧ (digits raw).length ≥ 10 then "+" ++ digits raw
  else raw

variable {P : Platform} {raw ds number : Str}

theorem digits_digits (s : Str) : digits (digits s) = digits s := by
  rw [digits, digits, List.filter_filter]
  simp only [Bool.and_self]

theorem digits_plus (s : Str) : digits ("+" ++ s) = digits s := List.filter_cons_of_neg (by decide)

theorem not_isBlank_plus (s : Str) : isBlank ("+" ++ s) = false := rfl

theorem toE164_accepted (hblank : isBlank raw = false) (h : P.formatNumberToE164 raw = some number) :
    toE164 P raw = number := by
  rw [toE164, hblank, h]
  rfl

theorem toE164_rejected (hblank : isBlank raw = false) (h : P.formatNumberToE164 raw = none) :
    toE164 P raw = fallback raw := by
  rw [toE164, hblank, h]
  rfl

theorem fallback_cases (raw : Str) :
    fallback raw = raw ∨ ∃ ds, fallback raw = "+" ++ ds ∧ digits ds = ds ∧ 11 ≤ ds.length := by
  rw [fallback]
  split
  · rename_i hten
    refine .inr ⟨"1" ++ digits raw, rfl, ?_, ?_⟩
    · exact (List.filter_cons_of_pos (by decide)).trans (congrArg _ (digits_digits raw))
    · exact (congrArg Nat.succ hten).ge
  · split
    · rename_i heleven
      exact .inr ⟨digits raw, rfl, digits_digits raw, heleven.1.ge⟩
    · split
      · rename_i hmore
        exact .inr ⟨digits raw, rfl, digits_digits raw, hmore.le⟩
      · split
        · rename_i hplus
          exact .inr ⟨digits raw, rfl, digits_digits raw, by omega⟩
        · exact .inl rfl

/-- The branches for eleven and for more digits agree with the one for the sign. -/
theorem fallback_signed (hplus : startsWith raw "+") (hlen : 11 ≤ (digits raw).length) :
    fallback raw = "+" ++ digits raw := by
  rw [fallback, if_neg (by omega)]
  split
  · rfl
  · split
    · rfl
    · exact if_pos ⟨hplus, by omega⟩

theorem toE164_signed (h : FormatsE164 P) (hds : digits ds = ds) (hlen : 11 ≤ ds.length) :
    toE164 P ("+" ++ ds) = "+" ++ ds := by
  have hdigits : digits ("+" ++ ds) = ds := (digits_plus ds).trans hds
  cases hnumber : P.formatNumberToE164 ("+" ++ ds) with
  | none =>
    rw [toE164_rejected (not_isBlank_plus ds) hnumber, fallback_signed rfl (hlen.trans_eq (by rw [hdigits])), hdigits]
  | some number =>
    rw [toE164_accepted (not_isBlank_plus ds) hnumber, h.plus _ _ hnumber, h.keeps _ _ hnumber rfl, hdigits]

theorem toE164_toE164 (h : FormatsE164 P) (raw : Str) : toE164 P (toE164 P raw) = toE164 P raw := by
  cases hblank : isBlank raw with
  | true =>
    have hself : toE164 P raw = raw := if_pos hblank
    rw [hself, hself]
  | false =>
    cases hnumber : P.formatNumberToE164 raw with
    | none =>
      have hself := toE164_rejected hblank hnumber
      rcases fallback_cases raw with heq | ⟨ds, heq, hds, hlen⟩
      · rw [hself, heq, hself, heq]
      · rw [hself, heq, toE164_signed h hds hlen]
    | some number =>
      rw [toE164_accepted hblank hnumber]
      refine toE164_accepted ?_ (h.own raw number hnumber)
      rw [h.plus raw number hnumber]
      rfl

/-- A number is the same as its normal form. -/
theorem isSameNumber_toE164 (h : FormatsE164 P) (raw : Str) : isSameNumber P raw (toE164 P raw) = true := by
  rw [isSameNumber, toE164_toE164 h raw, beq_self_eq_true, Bool.true_or]

theorem not_isBlank_of_plus (hplus : startsWith raw "+") : isBlank raw = false := by
  obtain ⟨s, rfl⟩ := List.isPrefixOf_iff_prefix.mp hplus
  rfl

theorem digits_toE164_ten (hplus : startsWith raw "+") (hten : (digits raw).length = 10)
    (hnumber : P.formatNumberToE164 raw = none) : digits (toE164 P raw) = '1' :: digits raw := by
  rw [toE164_rejected (not_isBlank_of_plus hplus) hnumber, fallback, if_pos hten]
  exact (List.filter_cons_of_neg (by decide)).trans
    ((List.filter_cons_of_pos (by decide)).trans (congrArg _ (digits_digits raw)))

theorem digits_toE164 (h : FormatsE164 P) (hplus : startsWith raw "+")
    (hlen : 11 ≤ (digits raw).length ∨ P.formatNumberToE164 raw ≠ none) : digits (toE164 P raw) = digits raw := by
  cases hnumber : P.formatNumberToE164 raw with
  | none =>
    rw [toE164_rejected (not_isBlank_of_plus hplus) hnumber,
      fallback_signed hplus (hlen.resolve_right (not_not_intro hnumber)), digits_plus, digits_digits]
  | some number => rw [toE164_accepted (not_isBlank_of_plus hplus) hnumber, h.keeps raw number hnumber hplus]

theorem not_isNormal (hplus : startsWith raw "+") (hten : (digits raw).length = 10)
    (hnumber : P.formatNumberToE164 raw = none) : ¬IsNormal P raw := by
  intro hnormal
  have hdigits := hnormal.2 hplus hten.ge
  rw [digits_toE164_ten hplus hten hnumber] at hdigits
  exact absurd (congrArg List.length hdigits) (Nat.succ_ne_self _)

/-- The branch for ten digits stands before the one for the sign. -/
theorem isNormal_iff (h : FormatsE164 P) (raw : Str) :
    IsNormal P raw ↔
      ¬(startsWith raw "+" ∧ (digits raw).length = 10 ∧ P.formatNumberToE164 raw = none) := by
  constructor
  · intro hnormal hcase
    exact not_isNormal hcase.1 hcase.2.1 hcase.2.2 hnormal
  · intro hcase
    refine ⟨toE164_toE164 h raw, fun hplus hlen ↦ digits_toE164 h hplus ?_⟩
    by_cases hten : (digits raw).length = 10
    · exact .inr fun hnumber ↦ hcase ⟨hplus, hten, hnumber⟩
    · exact .inl (by omega)

theorem asciiPlatform_formatsE164 : FormatsE164 asciiPlatform := by
  have hsome : ∀ raw number, asciiPlatform.formatNumberToE164 raw = some number →
      raw = "+16502530000".toList ∧ number = "+16502530000".toList := by
    intro raw number hnumber
    change (if raw = "+16502530000".toList then some raw else none) = some number at hnumber
    split at hnumber
    · rename_i heq
      exact ⟨heq, (Option.some.inj hnumber).symm.trans heq⟩
    · cases hnumber
  constructor
  · intro raw number hnumber
    obtain ⟨-, rfl⟩ := hsome raw number hnumber
    decide
  · intro raw number hnumber _
    obtain ⟨rfl, rfl⟩ := hsome raw number hnumber
    rfl
  · intro raw number hnumber
    obtain ⟨-, rfl⟩ := hsome raw number hnumber
    decide

theorem isNormal_valid_number : IsNormal asciiPlatform "+16502530000" :=
  (isNormal_iff asciiPlatform_formatsE164 "+16502530000").mpr (by decide)

/-- A country code with nine digits behind it gets a second one. -/
theorem not_isNormal_ten_digits :
    FormatsE164 asciiPlatform ∧ toE164 asciiPlatform "+1234567890" = "+11234567890".toList ∧
      ¬IsNormal asciiPlatform "+1234567890" :=
  ⟨asciiPlatform_formatsE164, by decide, not_isNormal (by decide) (by decide) (by decide)⟩

end Aigentik.PhoneNormalizer
