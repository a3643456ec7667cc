import Aigentik.Collections.SegmentChain
import Aigentik.Strings.Utf8

/-! The characters that a tokenizer begins with, and the runs of them that it ends with. -/

namespace Aigentik.Llama

open Utf8 Collections Segment

def unicodeLenUtf8 (src : UInt8) : ℕ :=
  [1, 1, 1, 1, 1, 1, 1, 1, 1, 1, 1, 1, 2, 2, 3, 4].getD (src >>> 4).toNat 0

theorem unicodeLenUtf8_pos (src : UInt8) : 0 < unicodeLenUtf8 src :=
  byte_cases (p := fun src ↦ 0 < unicodeLenUtf8 src) (by decide +kernel) src

/-- The characters of a text as their leading bytes announce them; the last one may be cut short. -/
def chars : Bytes → List Bytes
  | [] => []
  | b :: text => (b :: text).take (unicodeLenUtf8 b) :: chars ((b :: text).drop (unicodeLenUtf8 b))
termination_by text => text.length
decreasing_by
  have hpos := unicodeLenUtf8_pos b
  simp only [List.length_drop, List.length_cons]
  omega

/-- An `llm_symbol`: where in the text it starts and how many bytes it has. -/
abbrev Symbol := Segment

/-- One symbol a character. -/
def symbolsFrom (index offs : ℕ) : Bytes → List Symbol
  | [] => []
  | b :: text =>
    let n := min (unicodeLenUtf8 b) (b :: text).length
    let rest := (b :: text).drop n
    ⟨if index = 0 then none else some (index - 1), if rest = [] then none else some (index + 1), offs, n⟩ ::
      symbolsFrom (index + 1) (offs + n) rest
termination_by text => text.length
decreasing_by
  have hpos := unicodeLenUtf8_pos b
  simp only [List.length_drop, List.length_cons]
  omega

def symbols (text : Bytes) : List Symbol := symbolsFrom 0 0 text

theorem chars_flatten (text : Bytes) : (chars text).flatten = text := by
  induction text using chars.induct with
  | case1 =>
    rw [chars]
    rfl
  | case2 b text ih => rw [chars, List.flatten_cons, ih, List.take_append_drop]

theorem chars_ne_nil (text : Bytes) : ∀ c ∈ chars text, c ≠ [] := by
  induction text using chars.induct with
  | case1 =>
    rw [chars]
    exact List.forall_mem_nil _
  | case2 b text ih =>
    rw [chars, List.forall_mem_cons]
    refine ⟨?_, ih⟩
    have hpos := unicodeLenUtf8_pos b
    obtain ⟨n, hn⟩ := Nat.exists_eq_add_one.mpr hpos
    rw [hn, List.take_succ_cons]
    exact List.cons_ne_nil _ _

theorem chars_eq_nil {text : Bytes} : chars text = [] ↔ text = [] := by
  refine ⟨fun h ↦ ?_, fun h ↦ by rw [h, chars]⟩
  rw [← chars_flatten text, h]
  rfl

theorem symbolsFrom_eq (index offs : ℕ) (text : Bytes) : symbolsFrom index offs text =
    cutFrom (if index = 0 then none else some (index - 1)) index offs ((chars text).map List.length) := by
  induction text using chars.induct generalizing index offs with
  | case1 =>
    rw [symbolsFrom, chars]
    rfl
  | case2 b text ih =>
    have hdrop : (b :: text).drop (min (unicodeLenUtf8 b) (b :: text).length) =
        (b :: text).drop (unicodeLenUtf8 b) := by
      rcases Nat.le_total (unicodeLenUtf8 b) (b :: text).length with h | h
      · rw [Nat.min_eq_left h]
      · rw [Nat.min_eq_right h, List.drop_length, List.drop_eq_nil_of_le h]
    have hnext : ((chars ((b :: text).drop (unicodeLenUtf8 b))).map List.length = []) ↔
        (b :: text).drop (unicodeLenUtf8 b) = [] := by
      rw [List.map_eq_nil_iff, chars_eq_nil]
    rw [symbolsFrom, chars, List.map_cons, cutFrom]
    simp only [hdrop, ih, hnext, List.length_take, Nat.succ_ne_zero, if_false, Nat.add_sub_cancel]

theorem symbols_eq (text : Bytes) : symbols text = cut ((chars text).map List.length) := symbolsFrom_eq 0 0 text

/-! Runs of characters -/

variable {cs g before : List Bytes} {known : Bytes → Prop} {start size size' : ℕ}

/-- A part of the text is one character, or a run of characters whose text is known. -/
def Grouped (cs : List Bytes) (known : Bytes → Prop) (start size : ℕ) : Prop :=
  ∃ before g after, cs = before ++ (g ++ after) ∧ start = before.flatten.length ∧ size = g.flatten.length ∧
    (g.length = 1 ∨ g ≠ [] ∧ known g.flatten)

theorem flatten_length_pos (hne : ∀ c ∈ cs, c ≠ []) (hcs : cs ≠ []) : 0 < cs.flatten.length := by
  cases cs with
  | nil => exact absurd rfl hcs
  | cons c cs =>
    rw [List.flatten_cons, List.length_append]
    exact Nat.add_pos_left (List.length_pos_iff.mpr (hne c List.mem_cons_self)) _

/-- Where in the text a character starts says which one it is. -/
theorem before_eq {before' after after' : List Bytes} (hne : ∀ c ∈ cs, c ≠ []) (h : cs = before ++ after)
    (h' : cs = before' ++ after') (hlen : before.flatten.length = before'.flatten.length) :
    before = before' ∧ after = after' := by
  have hcut : ∀ {a r b : List Bytes}, b = a ++ r → (∀ c ∈ r, c ≠ []) → a.flatten.length = b.flatten.length →
      r = [] := by
    intro a r b hb hr hab
    by_contra hnot
    have hpos := flatten_length_pos hr hnot
    rw [hb, List.flatten_append, List.length_append] at hab
    omega
  rcases List.append_eq_append_iff.mp (h.symm.trans h') with ⟨r, hb, ha⟩ | ⟨r, hb, ha⟩
  · have hr : r = [] := hcut hb (fun c hc ↦ hne c (by rw [h, ha]; simp [hc])) hlen
    rw [hr, List.append_nil] at hb
    rw [hr, List.nil_append] at ha
    exact ⟨hb.symm, ha⟩
  · have hr : r = [] := hcut hb (fun c hc ↦ hne c (by rw [h', ha]; simp [hc])) hlen.symm
    rw [hr, List.append_nil] at hb
    rw [hr, List.nil_append] at ha
    exact ⟨hb, ha.symm⟩

theorem slice_flatten (before g after : List Bytes) :
    slice (before ++ (g ++ after)).flatten before.flatten.length g.flatten.length = g.flatten := by
  rw [slice, List.flatten_append, List.drop_left, List.flatten_append, List.take_left]

/-- Neighbours become one run where their common text is known. -/
theorem Grouped.append (hne : ∀ c ∈ cs, c ≠ []) (h : Grouped cs known start size)
    (h' : Grouped cs known (start + size) size') (hknown : known (slice cs.flatten start (size + size'))) :
    Grouped cs known start (size + size') := by
  obtain ⟨before, g, after, hcs, rfl, rfl, hg⟩ := h
  obtain ⟨before', g', after', hcs', hstart, rfl, -⟩ := h'
  have hlen : (before ++ g).flatten.length = before'.flatten.length := by
    rw [List.flatten_append, List.length_append, hstart]
  obtain ⟨rfl, rfl⟩ := before_eq hne (by rw [List.append_assoc, hcs]) hcs' hlen
  have hsize : g.flatten.length + g'.flatten.length = (g ++ g').flatten.length := by
    rw [List.flatten_append, List.length_append]
  have hcs'' : cs = before ++ ((g ++ g') ++ after') := by rw [hcs, List.append_assoc]
  rw [hsize] at hknown ⊢
  refine ⟨before, g ++ g', after', hcs'', rfl, rfl, .inr ⟨?_, ?_⟩⟩
  · intro hnil
    obtain ⟨rfl, -⟩ := List.append_eq_nil_iff.mp hnil
    rcases hg with hg | hg
    · cases hg
    · exact hg.1 rfl
  · rwa [hcs'', slice_flatten] at hknown

theorem get_cutFrom (prev : Option ℕ) (index offs : ℕ) {i : ℕ} {c : Bytes} (hi : cs[i]? = some c) :
    (get (cutFrom prev index offs (cs.map List.length)) i).start = offs + (cs.take i).flatten.length ∧
      (get (cutFrom prev index offs (cs.map List.length)) i).size = c.length := by
  induction cs generalizing prev index offs i with
  | nil => cases hi
  | cons d cs ih =>
    cases i with
    | zero =>
      cases hi
      exact ⟨rfl, rfl⟩
    | succ i =>
      obtain ⟨hstart, hsize⟩ := ih (some index) (index + 1) (offs + d.length) hi
      refine ⟨hstart.trans ?_, hsize⟩
      rw [List.take_succ_cons, List.flatten_cons, List.length_append, Nat.add_assoc]

/-- At first each character is a segment. -/
theorem grouped_cut (known : Bytes → Prop) {i : ℕ} (hi : (get (cut (cs.map List.length)) i).size ≠ 0) :
    Grouped cs known (get (cut (cs.map List.length)) i).start (get (cut (cs.map List.length)) i).size := by
  have hlt := lt_length (Nat.pos_of_ne_zero hi)
  rw [cut, length_cutFrom, List.length_map] at hlt
  obtain ⟨hstart, hsize⟩ := get_cutFrom none 0 0 (List.getElem?_eq_getElem hlt)
  refine ⟨cs.take i, [cs[i]], cs.drop (i + 1), ?_, ?_, ?_, .inl rfl⟩
  · rw [List.singleton_append, List.getElem_cons_drop, List.take_append_drop]
  · rw [cut, hstart, Nat.zero_add]
  · rw [cut, hsize, List.flatten_singleton]

/-- The segments of a chain are runs of the characters, in their order. -/
theorem linked_groups {s : List Segment} {prev : Option ℕ} {ids : List ℕ} {rest : List Bytes} (hne : ∀ c ∈ cs, c ≠ [])
    (hcs : cs = before ++ rest) (h : Linked s prev before.flatten.length ids cs.flatten.length)
    (hgood : ∀ i ∈ ids, Grouped cs known (get s i).start (get s i).size) :
    ∃ groups : List (List Bytes), groups.flatten = rest ∧ (∀ g ∈ groups, g.length = 1 ∨ g ≠ [] ∧ known g.flatten) ∧
      ids.map (fun i ↦ slice cs.flatten (get s i).start (get s i).size) = groups.map List.flatten := by
  induction ids generalizing prev before rest with
  | nil =>
    have hlen : before.flatten.length = cs.flatten.length := h
    obtain ⟨-, hrest⟩ := before_eq hne hcs (List.append_nil cs).symm hlen
    exact ⟨[], hrest.symm, List.forall_mem_nil _, rfl⟩
  | cons i ids ih =>
    obtain ⟨-, -, hstart, -, hlinked⟩ := h
    obtain ⟨hi, hids⟩ := List.forall_mem_cons.mp hgood
    obtain ⟨before', g, after, hcs', hstart', hsize, hg⟩ := hi
    obtain ⟨rfl, rfl⟩ := before_eq hne hcs hcs' (hstart ▸ hstart')
    rw [hsize, ← List.length_append, ← List.flatten_append] at hlinked
    obtain ⟨groups, hflat, hknown, hmap⟩ := ih (by rw [List.append_assoc, hcs]) hlinked hids
    refine ⟨g :: groups, by rw [List.flatten_cons, hflat], List.forall_mem_cons.mpr ⟨hg, hknown⟩, ?_⟩
    rw [List.map_cons, List.map_cons, hmap, hstart', hsize, hcs, slice_flatten]

end Aigentik.Llama
