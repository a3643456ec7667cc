import Aigentik.Smollm.ResponseStream
import Aigentik.Strings.Utf8Groups

namespace Aigentik.ValidUtf8

open Utf8

/-- The bytes from the address of a NUL-terminated string on, and the place of the first NUL. -/
structure CString where
  mem : ℕ → UInt8
  len : ℕ
  mem_len : mem len = 0
  mem_ne : ∀ i < len, mem i ≠ 0

/-- What the function returns, and the places of the bytes that it has read. -/
structure Verdict where
  valid : Bool
  reads : List ℕ
  deriving DecidableEq

section Loops
variable (mem : ℕ → UInt8)

/-- The inner loop with `left` rounds to go; the pointer, unless it returns from there. -/
def continuation : ℕ → ℕ → Option ℕ × List ℕ
  | 0, bytes => (some bytes, [])
  | left + 1, bytes =>
    if mem bytes &&& 0xC0 ≠ 0x80 then (none, [bytes])
    else
      let (next, reads) := continuation left (bytes + 1)
      (next, bytes :: reads)

/-- The outer loop, in at most `rounds` rounds. -/
def outer : ℕ → ℕ → Option Verdict
  | 0, _ => none
  | rounds + 1, bytes =>
    if mem bytes = 0 then some ⟨true, [bytes]⟩
    else match width (mem bytes) with
      | none => some ⟨false, [bytes]⟩
      | some num => match continuation mem (num - 1) (bytes + 1) with
        | (none, reads) => some ⟨false, bytes :: reads⟩
        | (some next, reads) => (outer rounds next).map fun v ↦ ⟨v.valid, bytes :: reads ++ v.reads⟩

end Loops

def isValidUtf8 (rounds : ℕ) (response : Option (ℕ → UInt8)) : Option Verdict :=
  match response with
  | none => some ⟨true, []⟩
  | some mem => outer mem rounds 0

variable (s : CString) {i k : ℕ}

/-- The bytes before the NUL, from a place on. -/
def CString.bytesFrom (i : ℕ) : Bytes := (List.range' i (s.len - i)).map s.mem

/-- The bytes before the NUL. -/
def CString.bytes : Bytes := s.bytesFrom 0

/-- The function returns, it has read nothing behind the NUL, and it accepts just the well-formed bytes. -/
def AcceptsUtf8 : Prop := ∀ rounds, s.len < rounds →
  ∃ v, isValidUtf8 rounds (some s.mem) = some v ∧ (v.valid ↔ WellFormed s.bytes) ∧ ∀ i ∈ v.reads, i ≤ s.len

/-! The loops -/

theorem CString.bytesFrom_len : s.bytesFrom s.len = [] := by
  rw [bytesFrom, Nat.sub_self]
  rfl

theorem CString.bytesFrom_of_lt (hi : i < s.len) : s.bytesFrom i = s.mem i :: s.bytesFrom (i + 1) := by
  have hlen : s.len - i = s.len - (i + 1) + 1 := by omega
  rw [bytesFrom, hlen, List.range'_succ, List.map_cons, bytesFrom]

theorem CString.lt_len_of_ne (hi : i ≤ s.len) (h : s.mem i ≠ 0) : i < s.len :=
  lt_of_le_of_ne hi fun heq ↦ h (heq ▸ s.mem_len)

theorem CString.eq_len_of_zero (hi : i ≤ s.len) (h : s.mem i = 0) : i = s.len := by
  by_contra hne
  exact s.mem_ne i (lt_of_le_of_ne hi hne) h

/-- The inner loop stops at the NUL, which is no continuation byte, and accepts what the scan counts down. -/
theorem continuation_spec (hi : i ≤ s.len) :
    (∀ j ∈ (continuation s.mem k i).2, j ≤ s.len) ∧
      (∀ j, (continuation s.mem k i).1 = some j → i ≤ j ∧ j ≤ s.len) ∧
      (scan k (s.bytesFrom i) = some 0 ↔
        ∃ j, (continuation s.mem k i).1 = some j ∧ Whole (s.bytesFrom j)) := by
  induction k generalizing i with
  | zero =>
    refine ⟨by simp [continuation], fun j hj ↦ ?_, ?_⟩
    · obtain rfl := Option.some.inj hj
      exact ⟨le_rfl, hi⟩
    · simp [continuation, Whole]
  | succ k ih =>
    by_cases htail : s.mem i &&& 0xC0 = 0x80
    · have hne : s.mem i ≠ 0 := by
        intro hzero
        rw [hzero] at htail
        exact absurd htail (by decide)
      have hlt := s.lt_len_of_ne hi hne
      obtain ⟨hreads, hnext, hscan⟩ := ih hlt
      rw [continuation, if_neg (not_not_intro htail)]
      refine ⟨fun j hj ↦ ?_, fun j hj ↦ ?_, ?_⟩
      · rcases List.mem_cons.mp hj with rfl | hj
        · exact hi
        · exact hreads j hj
      · have hj' := hnext j hj
        omega
      · rw [s.bytesFrom_of_lt hlt, scan_cons, step, if_pos htail]
        exact hscan
    · rw [continuation, if_pos htail]
      refine ⟨by simpa using hi, by simp, iff_of_false (fun hscan ↦ ?_) (by simp)⟩
      rcases hi.eq_or_lt with rfl | hlt
      · rw [s.bytesFrom_len] at hscan
        cases hscan
      · rw [s.bytesFrom_of_lt hlt, scan_cons, step, if_neg htail] at hscan
        cases hscan

theorem outer_spec {rounds : ℕ} (hi : i ≤ s.len) (hrounds : s.len - i < rounds) :
    ∃ v, outer s.mem rounds i = some v ∧ (v.valid ↔ Whole (s.bytesFrom i)) ∧ ∀ j ∈ v.reads, j ≤ s.len := by
  induction rounds generalizing i with
  | zero => omega
  | succ rounds ih =>
    rw [outer]
    split
    · rename_i hzero
      refine ⟨_, rfl, ?_, by simpa using hi⟩
      rw [s.eq_len_of_zero hi hzero, s.bytesFrom_len]
      exact iff_of_true rfl whole_nil
    · rename_i hne
      have hlt := s.lt_len_of_ne hi hne
      have hwhole : Whole (s.bytesFrom i) ↔
          ((width (s.mem i)).map Nat.pred).bind (fun k ↦ scan k (s.bytesFrom (i + 1))) = some 0 := by
        rw [s.bytesFrom_of_lt hlt]
        exact Iff.rfl
      rw [hwhole]
      cases hwidth : width (s.mem i) with
      | none => exact ⟨_, rfl, iff_of_false Bool.false_ne_true (by simp), by simpa using hi⟩
      | some num =>
        obtain ⟨hreads, hnext, hscan⟩ := continuation_spec s (k := num - 1) (i := i + 1) hlt
        simp only [Option.map_some, Option.bind_some, Nat.pred_eq_sub_one, hscan]
        rcases hcont : continuation s.mem (num - 1) (i + 1) with ⟨next, reads⟩
        rw [hcont] at hreads hnext
        have hmem : ∀ j ∈ i :: reads, j ≤ s.len := fun j hj ↦
          (List.mem_cons.mp hj).elim (fun heq ↦ heq ▸ hi) (hreads j)
        cases next with
        | none => exact ⟨_, rfl, iff_of_false Bool.false_ne_true (by simp), hmem⟩
        | some next =>
          obtain ⟨hle, hlen⟩ := hnext next rfl
          obtain ⟨v, hv, hvalid, hrest⟩ := ih hlen (by omega)
          refine ⟨⟨v.valid, i :: reads ++ v.reads⟩, ?_, ?_, fun j hj ↦ ?_⟩
          · dsimp only
            rw [hv, Option.map_some]
          · rw [hvalid]
            simp
          · exact (List.mem_append.mp hj).elim (hmem j) (hrest j)

theorem zero_not_mem_bytes : 0 ∉ s.bytes := by
  intro hmem
  obtain ⟨i, hi, hzero⟩ := List.mem_map.mp hmem
  have hlt := (List.mem_range'_1.mp hi).2
  exact s.mem_ne i (by omega) hzero

/-- The pointer finds what the loop over the bytes finds. -/
theorem isValidUtf8_spec {rounds : ℕ} (hrounds : s.len < rounds) :
    ∃ v, isValidUtf8 rounds (some s.mem) = some v ∧ v.valid = LLMInference.isValidUtf8 s.bytes ∧
      ∀ i ∈ v.reads, i ≤ s.len := by
  obtain ⟨v, hv, hvalid, hreads⟩ := outer_spec s (Nat.zero_le s.len) hrounds
  refine ⟨v, hv, ?_, hreads⟩
  have hbytes := ResponseStream.isValidUtf8_iff s.bytes
  rw [ResponseStream.cstr_of_not_mem (zero_not_mem_bytes s)] at hbytes
  exact Bool.eq_iff_iff.mpr (hvalid.trans hbytes.symm)

theorem not_acceptsUtf8 (groups : List Bytes) (g : Bytes) (hbytes : s.bytes = groups.flatten)
    (hgroups : ∀ g ∈ groups, IsGroup g) (hg : g ∈ groups) (hill : IllFormed g) : ¬AcceptsUtf8 s := by
  intro haccepts
  obtain ⟨v, hv, hvalid, -⟩ := outer_spec s (Nat.zero_le s.len) (Nat.lt_succ_self s.len)
  obtain ⟨v', hv', hwell, -⟩ := haccepts (s.len + 1) (Nat.lt_succ_self s.len)
  obtain rfl := Option.some.inj (hv.symm.trans hv')
  have hwhole : Whole s.bytes := whole_iff_groups.mpr ⟨groups, hbytes, hgroups⟩
  have hformed := hwell.mp (hvalid.mpr hwhole)
  rw [hbytes, wellFormed_flatten_iff hgroups] at hformed
  exact hformed g hg hill

/-- The masks admit more than UTF-8: the function is exact where the bytes do not divide into groups, or into groups
of which none is ill-formed. -/
theorem acceptsUtf8_iff :
    AcceptsUtf8 s ↔
      ¬∃ groups : List Bytes, s.bytes = groups.flatten ∧ (∀ g ∈ groups, IsGroup g) ∧ ∃ g ∈ groups, IllFormed g := by
  constructor
  · intro haccepts hill
    obtain ⟨groups, hbytes, hgroups, g, hg, hill⟩ := hill
    exact not_acceptsUtf8 s groups g hbytes hgroups hg hill haccepts
  · intro hnone rounds hrounds
    obtain ⟨v, hv, hvalid, hreads⟩ := outer_spec s (Nat.zero_le s.len) hrounds
    refine ⟨v, hv, hvalid.trans ⟨fun hwhole ↦ ?_, WellFormed.whole⟩, hreads⟩
    obtain ⟨groups, hbytes, hgroups⟩ := whole_iff_groups.mp hwhole
    rw [CString.bytes, hbytes, wellFormed_flatten_iff hgroups]
    exact fun g hg hill ↦ hnone ⟨groups, hbytes, hgroups, g, hg, hill⟩

def overlongNul : CString where
  mem i := if i = 0 then 0xC0 else if i = 1 then 0x80 else 0
  len := 2
  mem_len := rfl
  mem_ne := by decide

/-- U+0000 in two bytes is accepted. -/
theorem not_acceptsUtf8_overlongNul : ¬AcceptsUtf8 overlongNul :=
  not_acceptsUtf8 overlongNul [[0xC0, 0x80]] [0xC0, 0x80] rfl
    (List.forall_mem_singleton.mpr ⟨rfl, List.forall_mem_singleton.mpr (by decide)⟩) (List.mem_singleton_self _)
    (.inl (by decide))

end Aigentik.ValidUtf8
