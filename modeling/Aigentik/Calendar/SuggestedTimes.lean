import Aigentik.Calendar.CalendarService
import Aigentik.Collections.FirstFew
import Mathlib.Algebra.Order.Group.Unbundled.Int
import Mathlib.Order.Nat

namespace Aigentik.SuggestedTimes

open Collections CalendarService

/-! What is to be suggested, in integers -/

section Wanted

variable (rows : List DeviceEvent) (durationMinutes : Int32) (startDate endDate : Int64)

/-- The 30-minute grid from the start. -/
def gridTime (k : ℕ) : ℤ := startDate.toInt + 1800000 * k

def gridSlot (k : ℕ) : ℤ × ℤ := (gridTime startDate k, gridTime startDate k + durationMinutes.toInt * 60000)

/-- The slot lies inside the range and overlaps no event. -/
def Suitable (k : ℕ) : Prop :=
  (gridSlot durationMinutes startDate k).2 ≤ endDate.toInt ∧
    ∀ row ∈ rows, ∀ o ∈ row.occurrences,
      ¬(o.1 < (gridSlot durationMinutes startDate k).2 ∧ (gridSlot durationMinutes startDate k).1 < o.2)

/-- As many grid slots as start in the range. -/
def slotCount : ℕ := ((endDate.toInt - startDate.toInt) / 1800000 + 1).toNat

open Classical in
noncomputable def wanted (k : ℕ) : Option (ℤ × ℤ) :=
  if Suitable rows durationMinutes startDate endDate k then some (gridSlot durationMinutes startDate k) else none

/-- The first five suitable slots, or all there are. -/
noncomputable def firstSuitable : List (ℤ × ℤ) :=
  (valuesFrom (wanted rows durationMinutes startDate endDate) 0 (slotCount startDate endDate)).take 5

end Wanted

def toInts (slot : Slot) : ℤ × ℤ := (slot.1.toInt, slot.2.toInt)

/-- A success gives the suitable slots, of events that could be read. -/
def Right (provider : Provider) (durationMinutes : Int32) (startDate endDate : Int64)
    (result : Except Throwable (List Slot)) : Prop :=
  ∀ slots, result = .ok slots → ∃ rows, provider = .ok (some rows) ∧
    slots.map toInts = firstSuitable rows durationMinutes startDate endDate

/-! What the loop takes -/

section Taken

variable (events : List CalendarEvent) (durationMillis startDate endDate : Int64)

/-- The start of a round, in 64 bits. -/
def time : ℕ → Int64
  | 0 => startDate
  | k + 1 => time k + 1800000

/-- The loop comes to the round and finds no conflict. -/
def Takes (k : ℕ) : Prop :=
  (∀ j ≤ k, time startDate j + durationMillis ≤ endDate) ∧
    conflicts events (time startDate k) (time startDate k + durationMillis) = false

instance (k : ℕ) : Decidable (Takes events durationMillis startDate endDate k) := instDecidableAnd

def taken (k : ℕ) : Option (ℤ × ℤ) :=
  if Takes events durationMillis startDate endDate k then
    some (toInts (time startDate k, time startDate k + durationMillis))
  else none

end Taken

/-- Every round before the fifth suitable slot takes the suitable ones, with the duration in 32 bits. -/
structure RightWhen (rows : List DeviceEvent) (events : List CalendarEvent) (durationMinutes : Int32)
    (startDate endDate : Int64) : Prop where
  duration : ∀ k, Suitable rows durationMinutes startDate endDate k → durationMinutes.toInt * 60 < 2147483648
  judged : ∀ k, (valuesFrom (wanted rows durationMinutes startDate endDate) 0 k).length < 5 →
    (Takes events (durationMillis durationMinutes) startDate endDate k ↔
      Suitable rows durationMinutes startDate endDate k)

variable {rows : List DeviceEvent} {events : List CalendarEvent} {durationMinutes : Int32}
  {durationMillis startDate endDate : Int64} {k : ℕ}

/-! Sums in 64 bits -/

theorem toInt_add_of_lt {a b : Int64} (hlow : -9223372036854775808 ≤ a.toInt + b.toInt)
    (hhigh : a.toInt + b.toInt < 9223372036854775808) : (a + b).toInt = a.toInt + b.toInt := by
  rw [Int64.toInt_add]
  exact Int.bmod_eq_of_le_mul_two (by omega) (by omega)

theorem toInt_time (h : gridTime startDate k < 9223372036854775808) :
    (time startDate k).toInt = gridTime startDate k := by
  have hstart := startDate.le_toInt
  induction k with
  | zero => simp [time, gridTime]
  | succ k ih =>
    rw [gridTime] at h
    have hk : (time startDate k).toInt = gridTime startDate k := ih (by rw [gridTime]; omega)
    have hstep : (1800000 : Int64).toInt = 1800000 := rfl
    rw [gridTime] at hk
    rw [time, toInt_add_of_lt (by omega) (by omega), hk, hstep, gridTime]
    omega

/-- The products of the duration, in 32 and in 64 bits. -/
theorem toInt_durationMillis (durationMinutes : Int32) : (CalendarService.durationMillis durationMinutes).toInt =
    (durationMinutes.toInt * 60).bmod 4294967296 * 1000 := by
  have hlow := Int.le_bmod (x := durationMinutes.toInt * 60) (m := 4294967296) (by decide)
  have hhigh := Int.bmod_lt (x := durationMinutes.toInt * 60) (m := 4294967296) (by decide)
  have hsixty : (60 : Int32).toInt = 60 := rfl
  have hthousand : (1000 : Int64).toInt = 1000 := rfl
  rw [CalendarService.durationMillis, Int64.toInt_mul, Int32.toInt_toInt64, Int32.toInt_mul, hsixty, hthousand]
  change ((durationMinutes.toInt * 60).bmod 4294967296 * 1000).bmod _ = _
  exact Int.bmod_eq_of_le_mul_two (by omega) (by omega)

/-! The loop -/

/-- The slots that are suggested, when the loop ends at any later round. -/
theorem freeSlots_returns {fuel : ℕ} {suggestions result : List Slot}
    (h : freeSlots events durationMillis endDate fuel (time startDate k) suggestions = some result)
    (hreached : ∀ j < k, time startDate j + durationMillis ≤ endDate)
    (htaken : suggestions.map toInts = valuesFrom (taken events durationMillis startDate endDate) 0 k)
    (hfew : suggestions.length < 5) :
    ∃ m, ∀ n, m ≤ n →
      result.map toInts = (valuesFrom (taken events durationMillis startDate endDate) 0 n).take 5 := by
  induction fuel generalizing k suggestions with
  | zero => cases h
  | succ fuel ih =>
    rw [freeSlots] at h
    have hlength := congrArg List.length htaken
    rw [List.length_map] at hlength
    by_cases hgo : time startDate k + durationMillis ≤ endDate
    · have hreached' : ∀ j < k + 1, time startDate j + durationMillis ≤ endDate := fun j hj ↦ by
        rcases Nat.lt_succ_iff_lt_or_eq.mp hj with hj | rfl
        · exact hreached j hj
        · exact hgo
      rw [if_pos hgo] at h
      by_cases hconflict : conflicts events (time startDate k) (time startDate k + durationMillis) = true
      · rw [if_pos hconflict] at h
        have hskip : taken events durationMillis startDate endDate k = none :=
          if_neg fun htakes ↦ by rw [htakes.2] at hconflict; cases hconflict
        refine ih (k := k + 1) h hreached' ?_ hfew
        rw [valuesFrom_snoc, hskip, htaken, Option.toList_none, List.append_nil]
      · rw [if_neg hconflict] at h
        have htake : taken events durationMillis startDate endDate k =
            some (toInts (time startDate k, time startDate k + durationMillis)) :=
          if_pos ⟨fun j hj ↦ hreached' j (Nat.lt_succ_of_le hj), Bool.eq_false_of_not_eq_true hconflict⟩
        have htaken' : (suggestions ++ [(time startDate k, time startDate k + durationMillis)]).map toInts =
            valuesFrom (taken events durationMillis startDate endDate) 0 (k + 1) := by
          rw [valuesFrom_snoc, htake, List.map_append, htaken]
          rfl
        by_cases hfive : 5 ≤ (suggestions ++ [(time startDate k, time startDate k + durationMillis)]).length
        · rw [if_pos hfive] at h
          cases h
          refine ⟨k + 1, fun n hn ↦ ?_⟩
          obtain ⟨later, hlater⟩ := valuesFrom_isPrefix (f := taken events durationMillis startDate endDate) hn
          have hexact : (valuesFrom (taken events durationMillis startDate endDate) 0 (k + 1)).length = 5 := by
            rw [← htaken', List.length_map]
            rw [List.length_append, List.length_singleton] at hfive ⊢
            omega
          rw [← hlater, htaken', List.take_left' hexact]
        · rw [if_neg hfive] at h
          exact ih (k := k + 1) h hreached' htaken' (Nat.not_le.mp hfive)
    · rw [if_neg hgo] at h
      cases h
      refine ⟨k, fun n hn ↦ ?_⟩
      have hnone : ∀ j, k ≤ j → taken events durationMillis startDate endDate j = none := fun j hj ↦
        if_neg fun htakes ↦ hgo (htakes.1 k hj)
      rw [valuesFrom_of_none hnone hn, ← htaken, List.take_of_length_le]
      rw [List.length_map]
      omega

/-! The two sequences -/

theorem Suitable.gridTime_lt (hdur : 1 ≤ durationMinutes.toInt)
    (h : Suitable rows durationMinutes startDate endDate k) : gridTime startDate k < 9223372036854775808 := by
  have hend := endDate.toInt_lt
  have hslot : gridTime startDate k + durationMinutes.toInt * 60000 ≤ endDate.toInt := h.1
  omega

theorem eq_some_of_wanted {x : ℤ × ℤ} (h : wanted rows durationMinutes startDate endDate k = some x) :
    Suitable rows durationMinutes startDate endDate k ∧ x = gridSlot durationMinutes startDate k := by
  unfold wanted at h
  by_cases hsuitable : Suitable rows durationMinutes startDate endDate k
  · rw [if_pos hsuitable] at h
    exact ⟨hsuitable, (Option.some.inj h).symm⟩
  · rw [if_neg hsuitable] at h
    cases h

theorem eq_some_of_taken {x : ℤ × ℤ} (h : taken events durationMillis startDate endDate k = some x) :
    Takes events durationMillis startDate endDate k ∧
      x = toInts (time startDate k, time startDate k + durationMillis) := by
  unfold taken at h
  by_cases htakes : Takes events durationMillis startDate endDate k
  · rw [if_pos htakes] at h
    exact ⟨htakes, (Option.some.inj h).symm⟩
  · rw [if_neg htakes] at h
    cases h

/-- The times of the rounds come back only after all the slots of the range. -/
theorem aligned (hdur : 1 ≤ durationMinutes.toInt) :
    Aligned (taken events durationMillis startDate endDate) (wanted rows durationMinutes startDate endDate) := by
  intro a b hab x
  constructor
  · intro htaken hwanted
    obtain ⟨-, hx⟩ := eq_some_of_taken htaken
    obtain ⟨hsuitable, hx'⟩ := eq_some_of_wanted hwanted
    have hb := hsuitable.gridTime_lt hdur
    have hfirst : (time startDate a).toInt = gridTime startDate b := congrArg Prod.fst (hx.symm.trans hx')
    rw [toInt_time (by rw [gridTime] at hb ⊢; omega), gridTime, gridTime] at hfirst
    omega
  · intro hwanted htaken
    obtain ⟨hsuitable, hx'⟩ := eq_some_of_wanted hwanted
    obtain ⟨htakes, hx⟩ := eq_some_of_taken htaken
    have hfirst : (time startDate b).toInt = gridTime startDate a := congrArg Prod.fst (hx.symm.trans hx')
    rw [← toInt_time (hsuitable.gridTime_lt hdur)] at hfirst
    have hsame := Int64.toInt_inj.mp hfirst
    rw [hx, hsame]
    refine if_pos ⟨fun j hj ↦ htakes.1 j (hj.trans hab.le), ?_⟩
    rw [← hsame]
    exact htakes.2

/-- A product that was wrapped to 32 bits cannot come right in 64 bits. -/
theorem mul_lt_of_dvd {minutes product : ℤ} (hpos : 1 ≤ minutes) (hminutes : minutes < 2147483648)
    (hlow : -2147483648 ≤ product) (hhigh : product < 2147483648)
    (hdvd : (18446744073709551616 : ℤ) ∣ minutes * 60000 - product * 1000) : minutes * 60 < 2147483648 := by
  have hzero : minutes * 60000 - product * 1000 = 0 := by
    refine Int.eq_zero_of_abs_lt_dvd hdvd (abs_lt.mpr ?_)
    clear hdvd
    constructor <;> omega
  clear hdvd
  omega

theorem toInt_slotEnd_iff (hdur : 1 ≤ durationMinutes.toInt)
    (h : Suitable rows durationMinutes startDate endDate k) :
    (time startDate k + CalendarService.durationMillis durationMinutes).toInt =
      (gridSlot durationMinutes startDate k).2 ↔ durationMinutes.toInt * 60 < 2147483648 := by
  have hend := endDate.toInt_lt
  have hstart := startDate.le_toInt
  have hslot : gridTime startDate k + durationMinutes.toInt * 60000 ≤ endDate.toInt := h.1
  have hgrid : startDate.toInt ≤ gridTime startDate k := by rw [gridTime]; omega
  have hmillis := toInt_durationMillis durationMinutes
  have hminutes := durationMinutes.toInt_lt
  rw [Int64.toInt_add, toInt_time (h.gridTime_lt hdur), hmillis, gridSlot]
  constructor
  · intro hsum
    have hdvd := ((Int.bmod_eq_iff (by decide)).mp hsum).2.2
    have hdiff : gridTime startDate k + durationMinutes.toInt * 60000 -
        (gridTime startDate k + (durationMinutes.toInt * 60).bmod 4294967296 * 1000) =
          durationMinutes.toInt * 60000 - (durationMinutes.toInt * 60).bmod 4294967296 * 1000 := by omega
    exact mul_lt_of_dvd hdur hminutes (Int.le_bmod (by decide)) (Int.bmod_lt (by decide)) (hdiff ▸ hdvd)
  · intro hfits
    rw [Int.bmod_eq_of_le_mul_two (x := durationMinutes.toInt * 60) (by omega) (by omega)]
    rw [Int.bmod_eq_of_le_mul_two (by omega) (by omega)]
    omega

/-- A round is judged right if it takes its slot just in case it is suitable, with the right end. -/
theorem taken_eq_wanted_iff (hdur : 1 ≤ durationMinutes.toInt) :
    taken events (CalendarService.durationMillis durationMinutes) startDate endDate k =
      wanted rows durationMinutes startDate endDate k ↔
    (Takes events (CalendarService.durationMillis durationMinutes) startDate endDate k ↔
      Suitable rows durationMinutes startDate endDate k) ∧
    (Suitable rows durationMinutes startDate endDate k → durationMinutes.toInt * 60 < 2147483648) := by
  unfold taken wanted
  by_cases hsuitable : Suitable rows durationMinutes startDate endDate k
  · rw [if_pos hsuitable]
    by_cases htakes : Takes events (CalendarService.durationMillis durationMinutes) startDate endDate k
    · have hfirst := toInt_time (hsuitable.gridTime_lt hdur)
      rw [if_pos htakes, ← toInt_slotEnd_iff hdur hsuitable, Option.some.injEq, toInts, hfirst, Prod.ext_iff]
      simp only [htakes, hsuitable, gridSlot, true_and, forall_const]
    · simp [htakes, hsuitable]
  · by_cases htakes : Takes events (CalendarService.durationMillis durationMinutes) startDate endDate k
    · simp [htakes, hsuitable]
    · simp [htakes, hsuitable]

theorem not_suitable_of_slotCount_le (hdur : 1 ≤ durationMinutes.toInt) (h : slotCount startDate endDate ≤ k) :
    wanted rows durationMinutes startDate endDate k = none := by
  refine if_neg fun hsuitable ↦ ?_
  have hslot : gridTime startDate k + durationMinutes.toInt * 60000 ≤ endDate.toInt := hsuitable.1
  rw [slotCount] at h
  rw [gridTime] at hslot
  omega

/-- A result is right exactly if the events could be read and each round before the fifth suitable slot
was judged right. -/
theorem suggestEventTimes_right_iff {fuel : ℕ} {provider : Provider} {result : Except Throwable (List Slot)}
    (hdur : 1 ≤ durationMinutes.toInt)
    (h : suggestEventTimes fuel provider durationMinutes startDate endDate = some result) :
    Right provider durationMinutes startDate endDate result ↔ ∃ rows, provider = .ok (some rows) ∧
      RightWhen rows (existingEvents provider startDate endDate) durationMinutes startDate endDate := by
  classical
  obtain ⟨slots, hslots, rfl⟩ := Option.map_eq_some_iff.mp h
  obtain ⟨m, hm⟩ := freeSlots_returns (k := 0) hslots (fun j hj ↦ absurd hj (Nat.not_lt_zero j)) rfl (by decide)
  have hwanted (rows : List DeviceEvent) (n : ℕ) (hn : slotCount startDate endDate ≤ n) :
      firstSuitable rows durationMinutes startDate endDate =
        (valuesFrom (wanted rows durationMinutes startDate endDate) 0 n).take 5 := by
    rw [firstSuitable, valuesFrom_of_none (fun j hj ↦ not_suitable_of_slotCount_le hdur hj) hn]
  have hiff (rows : List DeviceEvent) : slots.map toInts = firstSuitable rows durationMinutes startDate endDate ↔
      RightWhen rows (existingEvents provider startDate endDate) durationMinutes startDate endDate := by
    constructor
    · intro heq
      have hjudged (k : ℕ) (hfew : (valuesFrom (wanted rows durationMinutes startDate endDate) 0 k).length < 5) :=
        let n := max (k + 1) (max m (slotCount startDate endDate))
        have htake : _ = _ := by
          rw [hm n (by omega), hwanted rows n (by omega)] at heq
          exact heq
        (take_valuesFrom_eq_iff (aligned hdur) 0 n 5).mp htake k (by omega) hfew
      refine ⟨?_, fun k hfew ↦ ?_⟩
      · intro k hsuitable
        have hleast := Nat.find_spec ⟨k, hsuitable⟩
        have hnone : valuesFrom (wanted rows durationMinutes startDate endDate) 0 (Nat.find ⟨k, hsuitable⟩) = [] :=
          valuesFrom_eq_nil fun j hj ↦ if_neg (Nat.find_min ⟨k, hsuitable⟩ hj)
        have hsame := hjudged _ (by rw [hnone]; decide)
        rw [Nat.zero_add] at hsame
        exact ((taken_eq_wanted_iff hdur).mp hsame).2 hleast
      · have hsame := hjudged k hfew
        rw [Nat.zero_add] at hsame
        exact ((taken_eq_wanted_iff hdur).mp hsame).1
    · intro hwhen
      rw [hm _ (le_max_left m (slotCount startDate endDate)), hwanted rows _ (le_max_right m _),
        take_valuesFrom_eq_iff (aligned hdur)]
      intro j _ hfew
      rw [Nat.zero_add]
      exact (taken_eq_wanted_iff hdur).mpr ⟨hwhen.judged j hfew, hwhen.duration j⟩
  constructor
  · intro hright
    obtain ⟨rows, hrows, heq⟩ := hright slots rfl
    exact ⟨rows, hrows, (hiff rows).mp heq⟩
  · intro hwhen slots' hslots'
    obtain ⟨rows, hrows, hwhen⟩ := hwhen
    cases hslots'
    exact ⟨rows, hrows, (hiff rows).mpr hwhen⟩

/-! Ranges in which nothing overflows -/

/-- The durations and ranges whose sums and products stay in 32 and 64 bits. -/
structure Fits (durationMinutes : Int32) (startDate endDate : Int64) : Prop where
  positive : 1 ≤ durationMinutes.toInt
  product : durationMinutes.toInt * 60 < 2147483648
  first : startDate.toInt + durationMinutes.toInt * 60000 < 9223372036854775808
  last : endDate.toInt + 1800000 < 9223372036854775808

theorem toInt_slotEnd (h : Fits durationMinutes startDate endDate)
    (hlt : (gridSlot durationMinutes startDate k).2 < 9223372036854775808) :
    (time startDate k + CalendarService.durationMillis durationMinutes).toInt =
      (gridSlot durationMinutes startDate k).2 := by
  have hpositive := h.positive
  have hproduct := h.product
  have hstart := startDate.le_toInt
  have hgrid : startDate.toInt ≤ gridTime startDate k := by rw [gridTime]; omega
  rw [gridSlot] at hlt ⊢
  have hmillis : (CalendarService.durationMillis durationMinutes).toInt = durationMinutes.toInt * 60000 := by
    rw [toInt_durationMillis, Int.bmod_eq_of_le_mul_two (by omega) (by omega)]
    omega
  have htime : (time startDate k).toInt = gridTime startDate k := toInt_time (by omega)
  rw [toInt_add_of_lt (by omega) (by omega), htime, hmillis]

/-- The loop comes to the slots of the range. -/
theorem reached_iff (h : Fits durationMinutes startDate endDate) (k : ℕ) :
    (∀ j ≤ k, time startDate j + CalendarService.durationMillis durationMinutes ≤ endDate) ↔
      (gridSlot durationMinutes startDate k).2 ≤ endDate.toInt := by
  have hend := endDate.toInt_lt
  constructor
  · intro hreached
    have hle := Int64.le_iff_toInt_le.mp (hreached k le_rfl)
    have hlast := h.last
    rwa [toInt_slotEnd h] at hle
    induction k with
    | zero =>
      have hfirst := h.first
      simpa [gridSlot, gridTime] using hfirst
    | succ k ih =>
      have hbefore := Int64.le_iff_toInt_le.mp (hreached k (Nat.le_succ k))
      have hlt := ih (fun j hj ↦ hreached j (hj.trans (Nat.le_succ k))) hbefore
      rw [toInt_slotEnd h hlt] at hbefore
      simp only [gridSlot, gridTime] at hbefore ⊢
      omega
  · intro hle j hj
    have hjk : (gridSlot durationMinutes startDate j).2 ≤ (gridSlot durationMinutes startDate k).2 := by
      simp only [gridSlot, gridTime]
      omega
    rw [Int64.le_iff_toInt_le, toInt_slotEnd h (by omega)]
    omega

/-- There, the slots are right if the selected events are in conflict with just the slots that an occurrence
overlaps. -/
theorem rightWhen_iff_of_fits (h : Fits durationMinutes startDate endDate) :
    RightWhen rows events durationMinutes startDate endDate ↔
      ∀ k, (valuesFrom (wanted rows durationMinutes startDate endDate) 0 k).length < 5 →
        (gridSlot durationMinutes startDate k).2 ≤ endDate.toInt →
          (conflicts events (time startDate k)
              (time startDate k + CalendarService.durationMillis durationMinutes) = true ↔
            ∃ row ∈ rows, ∃ o ∈ row.occurrences,
              o.1 < (gridSlot durationMinutes startDate k).2 ∧ (gridSlot durationMinutes startDate k).1 < o.2) := by
  have hjudged (k : ℕ) : (Takes events (CalendarService.durationMillis durationMinutes) startDate endDate k ↔
      Suitable rows durationMinutes startDate endDate k) ↔
      ((gridSlot durationMinutes startDate k).2 ≤ endDate.toInt →
        (conflicts events (time startDate k)
            (time startDate k + CalendarService.durationMillis durationMinutes) = true ↔
          ∃ row ∈ rows, ∃ o ∈ row.occurrences,
            o.1 < (gridSlot durationMinutes startDate k).2 ∧ (gridSlot durationMinutes startDate k).1 < o.2)) := by
    rw [Takes, Suitable, reached_iff h, and_congr_right_iff]
    refine imp_congr_right fun _ ↦ ?_
    have hnone : (∀ row ∈ rows, ∀ o ∈ row.occurrences,
        ¬(o.1 < (gridSlot durationMinutes startDate k).2 ∧ (gridSlot durationMinutes startDate k).1 < o.2)) ↔
        ¬∃ row ∈ rows, ∃ o ∈ row.occurrences,
          o.1 < (gridSlot durationMinutes startDate k).2 ∧ (gridSlot durationMinutes startDate k).1 < o.2 := by
      simp only [not_exists, not_and]
    rw [hnone, ← Bool.not_eq_true, not_iff_not]
  constructor
  · intro hwhen k hfew
    exact (hjudged k).mp (hwhen.judged k hfew)
  · intro hall
    exact ⟨fun _ _ ↦ h.product, fun k hfew ↦ (hjudged k).mpr (hall k hfew)⟩

theorem freeSlots_ends (n : ℕ) (suggestions : List Slot) (h : ¬time startDate (k + n) + durationMillis ≤ endDate) :
    ∃ result, freeSlots events durationMillis endDate (n + 1) (time startDate k) suggestions = some result := by
  induction n generalizing k suggestions with
  | zero =>
    rw [Nat.add_zero] at h
    rw [freeSlots, if_neg h]
    exact ⟨suggestions, rfl⟩
  | succ n ih =>
    have hnext : ¬time startDate (k + 1 + n) + durationMillis ≤ endDate := by rwa [Nat.add_right_comm, Nat.add_assoc]
    rw [freeSlots]
    by_cases hgo : time startDate k + durationMillis ≤ endDate
    · rw [if_pos hgo]
      by_cases hconflict : conflicts events (time startDate k) (time startDate k + durationMillis) = true
      · rw [if_pos hconflict]
        exact ih (k := k + 1) _ hnext
      · rw [if_neg hconflict]
        by_cases hfive : 5 ≤ (suggestions ++ [(time startDate k, time startDate k + durationMillis)]).length
        · rw [if_pos hfive]
          exact ⟨_, rfl⟩
        · rw [if_neg hfive]
          exact ih (k := k + 1) _ hnext
    · rw [if_neg hgo]
      exact ⟨_, rfl⟩

theorem suggestEventTimes_returns (h : Fits durationMinutes startDate endDate) (provider : Provider) :
    ∃ fuel result, suggestEventTimes fuel provider durationMinutes startDate endDate = some result := by
  have hstop : ¬∀ j ≤ slotCount startDate endDate,
      time startDate j + CalendarService.durationMillis durationMinutes ≤ endDate := by
    rw [reached_iff h]
    intro hle
    have hpositive := h.positive
    simp only [gridSlot, gridTime, slotCount] at hle
    omega
  obtain ⟨j, hj⟩ := not_forall.mp hstop
  obtain ⟨result, hresult⟩ := freeSlots_ends (k := 0) j [] (by rw [Nat.zero_add]; exact (Classical.not_imp.mp hj).2)
  exact ⟨j + 1, .ok result, congrArg (Option.map Except.ok) hresult⟩

/-! A calendar with one meeting, from `start` to `finish` -/

def meeting (start finish : Int64) : DeviceEvent where
  id := 1
  calendarId := 1
  title := some "Standup".toList
  description := none
  location := none
  dtstart := start
  dtend := some finish
  allDay := 0
  color := none
  status := some 1
  organizer := none
  rrule := none
  occurrences := {(start.toInt, finish.toInt)}
  once _ _ h := by cases h; rfl

/-- A meeting in the second of two hours leaves the first one. -/
theorem first_hour_right :
    Right (.ok (some [meeting 3600000 7200000])) 60 0 7200000 (.ok [(0, 3600000)]) := by
  have hresult : suggestEventTimes 4 (.ok (some [meeting 3600000 7200000])) 60 0 7200000 =
      some (.ok [(0, 3600000)]) := by decide
  refine (suggestEventTimes_right_iff (by decide) hresult).mpr ⟨_, rfl, ?_⟩
  refine (rightWhen_iff_of_fits ⟨by decide, by decide, by decide, by decide⟩).mpr fun k _ hrange ↦ ?_
  change (0 : ℤ) + 1800000 * k + 60 * 60000 ≤ 7200000 at hrange
  have hk : k = 0 ∨ k = 1 ∨ k = 2 := by omega
  simp only [List.mem_singleton, exists_eq_left, meeting, Set.mem_singleton_iff]
  rcases hk with rfl | rfl | rfl <;> decide

/-- A meeting that goes on at the start of the range is not seen. -/
theorem straddling_meeting_missed :
    suggestEventTimes 4 (.ok (some [meeting 0 3600000])) 30 1800000 3600000 = some (.ok [(1800000, 3600000)]) ∧
      ¬Right (.ok (some [meeting 0 3600000])) 30 1800000 3600000 (.ok [(1800000, 3600000)]) := by
  refine ⟨by decide, fun hright ↦ ?_⟩
  obtain ⟨rows, hrows, heq⟩ := hright _ rfl
  cases hrows
  have hmem : ((1800000, 3600000) : ℤ × ℤ) ∈ firstSuitable [meeting 0 3600000] 30 1800000 3600000 := by
    rw [← heq]
    exact List.mem_singleton_self _
  obtain ⟨j, -, hj⟩ := exists_of_mem_valuesFrom (List.mem_of_mem_take hmem)
  obtain ⟨hsuitable, hslot⟩ := eq_some_of_wanted hj
  refine hsuitable.2 _ (List.mem_singleton_self _) _ rfl ?_
  rw [← hslot]
  decide

end Aigentik.SuggestedTimes
