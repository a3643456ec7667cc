import Aigentik.Strings.Lines
import Aigentik.Strings.Regex

namespace Strings

variable {s t sub : Str}

theorem startsWith_iff : startsWith s sub = true ↔ sub <+: s := List.isPrefixOf_iff_prefix

theorem contains_iff : contains s sub = true ↔ sub <:+: s := by
  refine ⟨fun h ↦ ?_, contains_of_infix⟩
  obtain ⟨t, ht, hsub⟩ := List.any_eq_true.mp h
  exact (startsWith_iff.mp hsub).isInfix.trans ((List.mem_tails _ _).mp ht).isInfix

theorem substringAfter_append (w s : Str) : substringAfter (w ++ s) w = s := by
  have hindex : indexOf (w ++ s) w = some 0 := by
    have hstarts : startsWith (w ++ s) w = true := startsWith_iff.mpr (List.prefix_append w s)
    rw [indexOf]
    cases hws : w ++ s with
    | nil =>
      rw [hws] at hstarts
      simp [hstarts]
    | cons c t =>
      rw [hws] at hstarts
      rw [List.tails_cons, List.findIdx?_cons, if_pos hstarts]
  rw [substringAfter, hindex]
  exact List.drop_left' (Nat.zero_add _).symm

theorem removePrefix_append (w s : Str) : removePrefix (w ++ s) w = s := by
  rw [removePrefix, if_pos (startsWith_iff.mpr (List.prefix_append w s)), List.drop_left]

/-- A text that ends in a visible character does not reach into the end that is trimmed. -/
theorem infix_rdropWhile_iff {p : Char → Bool} {c : Char} (hc : p c = false) :
    sub ++ [c] <:+: s.rdropWhile p ↔ sub ++ [c] <:+: s := by
  constructor
  · intro h
    exact h.trans (List.rdropWhile_prefix p s).isInfix
  · intro h'
    obtain ⟨before, after, rfl⟩ := h'
    have hself : (before ++ (sub ++ [c])).rdropWhile p = before ++ (sub ++ [c]) := by
      rw [← List.append_assoc, List.rdropWhile_concat_neg _ _ _ (by simp [hc])]
    rw [rdropWhile_append_of_self p hself, List.append_assoc]
    exact List.infix_append' _ _ _

/-- A text without the separator does not reach across it. -/
theorem infix_separated_iff {c : Char} (hc : c ∉ sub) : sub <:+: s ++ c :: t ↔ sub <:+: s ∨ sub <:+: t := by
  rw [List.infix_append_iff_ne_nil]
  constructor
  · intro h
    rcases h with hs | ht | ⟨a, b, -, hb, rfl, -, hpre⟩
    · exact .inl hs
    · rcases List.infix_cons_iff.mp ht with hpre | ht
      · rcases List.prefix_cons_iff.mp hpre with rfl | ⟨sub', rfl, -⟩
        · exact .inl List.nil_infix
        · exact (hc List.mem_cons_self).elim
      · exact .inr ht
    · obtain ⟨b', rfl, -⟩ := (List.prefix_cons_iff.mp hpre).resolve_left hb
      exact (hc (List.mem_append_right _ List.mem_cons_self)).elim
  · intro h
    rcases h with hs | ht
    · exact .inl hs
    · exact .inr (.inl (ht.trans (List.suffix_cons c t).isInfix))

/-- A text whose first character is not in the beginning does not reach into it. -/
theorem infix_append_of_not_mem {c : Char} (hc : c ∉ s) : c :: sub <:+: s ++ t ↔ c :: sub <:+: t := by
  induction s with
  | nil => rfl
  | cons d s ih =>
    rw [List.cons_append, List.infix_cons_iff, ih (List.not_mem_of_not_mem_cons hc)]
    exact or_iff_right fun hpre ↦ List.ne_of_not_mem_cons hc (List.cons_prefix_cons.mp hpre).1

/-! What a regular expression takes -/

namespace Re

variable {β : Type} {r : Re} {before : Str} {c : Captures} {k : Str → Captures → Option β} {x : β} {m : Match}

/-- The texts that a regular expression stands for. -/
def Spells : Re → Str → Prop
  | .one p, v => ∃ d, p d = true ∧ v = [d]
  | .empty, v => v = []
  | .seq r t, v => ∃ a b, r.Spells a ∧ t.Spells b ∧ v = a ++ b
  | .alt r t, v => r.Spells v ∨ t.Spells v
  | .star _ r, v => ∃ vs : List Str, (∀ w ∈ vs, r.Spells w) ∧ v = vs.flatten
  | .group _ r, v => r.Spells v

theorem loop_spells {greedy : Bool} {body : Str → Captures → (Str → Captures → Option β) → Option β}
    (hbody : ∀ {s : Str} {c : Captures} {k : Str → Captures → Option β}, body s c k = some x →
      ∃ v t c', s = v ++ t ∧ r.Spells v ∧ k t c' = some x) (n : ℕ) {s : Str} {c : Captures}
    (h : loop greedy body n s c k = some x) :
    ∃ (vs : List Str) (t : Str) (c' : Captures), s = vs.flatten ++ t ∧ (∀ w ∈ vs, r.Spells w) ∧ k t c' = some x := by
  induction n generalizing s c with
  | zero => exact ⟨[], s, c, rfl, by simp, h⟩
  | succ n ih =>
    have hsplit : (body s c fun s' c' ↦ if s'.length < s.length then loop greedy body n s' c' k else none) = some x ∨
        k s c = some x := by
      rw [loop] at h
      cases greedy with
      | true => exact Option.or_eq_some_iff.mp h |>.imp id And.right
      | false => exact (Option.or_eq_some_iff.mp h |>.imp id And.right).symm
    rcases hsplit with hagain | hstop
    · obtain ⟨v, t, c', rfl, hv, hrest⟩ := hbody hagain
      split at hrest
      · obtain ⟨vs, t', c'', rfl, hvs, hk⟩ := ih hrest
        refine ⟨v :: vs, t', c'', ?_, List.forall_mem_cons.mpr ⟨hv, hvs⟩, hk⟩
        rw [List.flatten_cons, List.append_assoc]
      · cases hrest
    · exact ⟨[], s, c, rfl, by simp, hstop⟩

/-- The matcher takes a text that the expression stands for, and goes on with the rest. -/
theorem go_spells (h : r.go s c k = some x) : ∃ v t c', s = v ++ t ∧ r.Spells v ∧ k t c' = some x := by
  induction r generalizing s c k with
  | one p =>
    cases s with
    | nil => cases h
    | cons d s =>
      rw [go] at h
      split at h
      · rename_i hp
        exact ⟨[d], s, c, rfl, ⟨d, hp, rfl⟩, h⟩
      · cases h
  | empty => exact ⟨[], s, c, rfl, rfl, h⟩
  | seq r t ihr iht =>
    obtain ⟨v, s', c', rfl, hv, hrest⟩ := ihr h
    obtain ⟨w, s'', c'', rfl, hw, hk⟩ := iht hrest
    exact ⟨v ++ w, s'', c'', (List.append_assoc ..).symm, ⟨v, w, hv, hw, rfl⟩, hk⟩
  | alt r t ihr iht =>
    rcases Option.or_eq_some_iff.mp h with hr | ⟨-, ht⟩
    · obtain ⟨v, s', c', rfl, hv, hk⟩ := ihr hr
      exact ⟨v, s', c', rfl, .inl hv, hk⟩
    · obtain ⟨v, s', c', rfl, hv, hk⟩ := iht ht
      exact ⟨v, s', c', rfl, .inr hv, hk⟩
  | star greedy r ih =>
    obtain ⟨vs, t, c', rfl, hvs, hk⟩ := loop_spells (r := r) ih s.length h
    exact ⟨vs.flatten, t, c', rfl, ⟨vs, hvs, rfl⟩, hk⟩
  | group i r ih =>
    obtain ⟨v, t, c', rfl, hv, hk⟩ := ih h
    exact ⟨v, t, _, rfl, hv, hk⟩

theorem matchAt_eq_some (h : r.matchAt before s = some m) :
    s = m.value ++ m.rest ∧ r.Spells m.value ∧ m.before = before := by
  obtain ⟨v, t, c, rfl, hv, hm⟩ := go_spells h
  obtain rfl := Option.some.inj hm
  have hvalue : (v ++ t).take ((v ++ t).length - t.length) = v := by simp
  exact ⟨by rw [hvalue], by rw [hvalue]; exact hv, rfl⟩

theorem findFrom_eq_some (h : r.findFrom before s = some m) : ∃ p q, s = p ++ q ∧ m.before = before ++ p ∧
    r.matchAt m.before q = some m ∧ ∀ a b, s = a ++ b → a.length < p.length → r.matchAt (before ++ a) b = none := by
  induction s generalizing before with
  | nil =>
    obtain ⟨-, -, hbefore⟩ := matchAt_eq_some h
    refine ⟨[], [], rfl, by rw [hbefore, List.append_nil], by rw [hbefore]; exact h, fun a b _ hlt ↦ ?_⟩
    exact (Nat.not_lt_zero _ hlt).elim
  | cons c s ih =>
    rw [findFrom] at h
    rcases Option.or_eq_some_iff.mp h with hhere | ⟨hnot, hlater⟩
    · obtain ⟨-, -, hbefore⟩ := matchAt_eq_some hhere
      refine ⟨[], c :: s, rfl, by rw [hbefore, List.append_nil], by rw [hbefore]; exact hhere, fun a b _ hlt ↦ ?_⟩
      exact (Nat.not_lt_zero _ hlt).elim
    · obtain ⟨p, q, rfl, hbefore, hat, hfirst⟩ := ih hlater
      refine ⟨c :: p, q, rfl, by rw [hbefore, List.append_assoc]; rfl, hat, fun a b hsplit hlt ↦ ?_⟩
      cases a with
      | nil =>
        rw [List.append_nil, ← List.nil_append b, ← hsplit]
        exact hnot
      | cons d a =>
        rw [List.cons_append, List.cons.injEq] at hsplit
        obtain ⟨rfl, htail⟩ := hsplit
        rw [List.append_cons]
        exact hfirst a b htail (Nat.lt_of_succ_lt_succ hlt)

theorem find_eq_some (h : r.find s = some m) :
    s = m.before ++ (m.value ++ m.rest) ∧ r.matchAt m.before (m.value ++ m.rest) = some m ∧
      ∀ a b, s = a ++ b → a.length < m.before.length → r.matchAt a b = none := by
  obtain ⟨p, q, rfl, hbefore, hat, hfirst⟩ := findFrom_eq_some h
  obtain rfl : m.before = p := hbefore
  obtain ⟨hq, -, -⟩ := matchAt_eq_some hat
  rw [← hq]
  exact ⟨rfl, hat, hfirst⟩

/-- An iteration for each of the texts, if none of them is empty. -/
theorem loop_of_spells {greedy : Bool} {body : Str → Captures → (Str → Captures → Option β) → Option β}
    (hbody : ∀ {v t : Str} {c : Captures} {k : Str → Captures → Option β}, r.Spells v → (∀ c', (k t c').isSome) →
      (body (v ++ t) c k).isSome) {vs : List Str} (n : ℕ) (hvs : ∀ w ∈ vs, r.Spells w) (hne : ∀ w ∈ vs, w ≠ [])
    (hn : vs.flatten.length ≤ n) (hk : ∀ c', (k t c').isSome) :
    (loop greedy body n (vs.flatten ++ t) c k).isSome := by
  induction vs generalizing n c with
  | nil =>
    cases n with
    | zero => exact hk c
    | succ n =>
      have hstop : (k t c).isSome := hk c
      rw [loop]
      cases greedy <;> simp [hstop]
  | cons w vs ih =>
    obtain ⟨hw, hvs⟩ := List.forall_mem_cons.mp hvs
    obtain ⟨hwne, hne⟩ := List.forall_mem_cons.mp hne
    have hpos := List.length_pos_iff.mpr hwne
    rw [List.flatten_cons, List.length_append] at hn
    obtain ⟨n, rfl⟩ := Nat.exists_eq_add_one_of_ne_zero (n := n) (by omega)
    rw [List.flatten_cons, List.append_assoc, loop]
    have hagain : (body (w ++ (vs.flatten ++ t)) c fun s' c' ↦
        if s'.length < (w ++ (vs.flatten ++ t)).length then loop greedy body n s' c' k else none).isSome := by
      refine hbody hw fun c' ↦ ?_
      have hshorter : (vs.flatten ++ t).length < (w ++ (vs.flatten ++ t)).length := by
        simpa [List.length_append] using hpos
      rw [if_pos hshorter]
      exact ih n hvs hne (by omega)
    cases greedy with
    | true =>
      rw [if_pos rfl, Option.isSome_or, Bool.or_eq_true]
      exact .inl hagain
    | false =>
      rw [if_neg Bool.false_ne_true, Option.isSome_or, Bool.or_eq_true]
      exact .inr hagain

/-- The matcher does not miss a text that the expression stands for. -/
theorem go_of_spells {v : Str} (h : r.Spells v) (hk : ∀ c', (k t c').isSome) : (r.go (v ++ t) c k).isSome := by
  induction r generalizing v t c k with
  | one p =>
    obtain ⟨d, hd, rfl⟩ := h
    rw [List.singleton_append, go, if_pos hd]
    exact hk c
  | empty =>
    obtain rfl : v = [] := h
    exact hk c
  | seq r s ihr ihs =>
    obtain ⟨a, b, ha, hb, rfl⟩ := h
    rw [List.append_assoc]
    exact ihr ha fun c' ↦ ihs hb hk
  | alt r s ihr ihs =>
    rw [go, Option.isSome_or, Bool.or_eq_true]
    exact h.imp (fun h ↦ ihr h hk) fun h ↦ ihs h hk
  | star greedy r ih =>
    obtain ⟨vs, hvs, rfl⟩ := h
    rw [← List.flatten_filter_ne_nil, go]
    refine loop_of_spells (r := r) (fun hv hk ↦ ih hv hk) _ (fun w hw ↦ hvs w (List.mem_of_mem_filter hw))
      (fun w hw ↦ ?_) (by rw [List.length_append]; omega) hk
    simpa using (List.mem_filter.mp hw).2
  | group i r ih => exact ih h fun c' ↦ hk _

theorem matchAt_isSome_iff : (r.matchAt before s).isSome ↔ ∃ v, v <+: s ∧ r.Spells v := by
  constructor
  · intro h
    obtain ⟨m, hm⟩ := Option.isSome_iff_exists.mp h
    obtain ⟨hs, hv, -⟩ := matchAt_eq_some hm
    exact ⟨m.value, ⟨m.rest, hs.symm⟩, hv⟩
  · intro h'
    obtain ⟨v, ⟨t, rfl⟩, hv⟩ := h'
    exact go_of_spells hv fun _ ↦ rfl

theorem findFrom_eq_none (h : r.findFrom before s = none) (a b : Str) (hs : s = a ++ b) :
    r.matchAt (before ++ a) b = none := by
  induction s generalizing before a with
  | nil =>
    obtain ⟨rfl, rfl⟩ := List.append_eq_nil_iff.mp hs.symm
    rw [List.append_nil]
    exact h
  | cons d s ih =>
    rw [findFrom, Option.or_eq_none_iff] at h
    cases a with
    | nil =>
      rw [List.append_nil, ← List.nil_append b, ← hs]
      exact h.1
    | cons e a =>
      rw [List.cons_append, List.cons.injEq] at hs
      obtain ⟨rfl, hs⟩ := hs
      rw [List.append_cons]
      exact ih h.2 a hs

theorem find_of_spells {v a : Str} (hv : r.Spells v) :
    ∃ m, r.find (a ++ (v ++ t)) = some m ∧ m.before.length ≤ a.length := by
  have hat : (r.matchAt a (v ++ t)).isSome := matchAt_isSome_iff.mpr ⟨v, List.prefix_append _ _, hv⟩
  cases hm : r.find (a ++ (v ++ t)) with
  | none =>
    rw [← List.nil_append a, findFrom_eq_none hm a _ rfl] at hat
    cases hat
  | some m =>
    refine ⟨m, rfl, ?_⟩
    by_contra hlt
    obtain ⟨-, -, hfirst⟩ := find_eq_some hm
    rw [hfirst a _ rfl (Nat.lt_of_not_le hlt)] at hat
    cases hat

/-- No text that the expression stands for begins before the match. -/
theorem not_spells_of_find {v a : Str} (h : r.find (a ++ (v ++ t)) = some m) (hlt : a.length < m.before.length) :
    ¬r.Spells v := by
  intro hv
  obtain ⟨m', hm', hle⟩ := find_of_spells (a := a) (t := t) hv
  obtain rfl : m' = m := Option.some.inj (hm'.symm.trans h)
  exact Nat.not_le_of_lt hlt hle

theorem findFrom_of_first {a b : Str} (h : r.matchAt (before ++ a) b = some m)
    (hfirst : ∀ a' b', a ++ b = a' ++ b' → a'.length < a.length → r.matchAt (before ++ a') b' = none) :
    r.findFrom before (a ++ b) = some m := by
  induction a generalizing before with
  | nil =>
    rw [List.append_nil] at h
    cases b with
    | nil => exact h
    | cons d b => rw [List.nil_append, findFrom, h, Option.some_or]
  | cons d a ih =>
    have hhere := hfirst [] (d :: (a ++ b)) rfl (Nat.succ_pos _)
    rw [List.append_nil] at hhere
    rw [List.cons_append, findFrom, hhere, Option.none_or]
    refine ih (by rwa [← List.append_cons]) fun a' b' heq hlt ↦ ?_
    rw [← List.append_cons]
    exact hfirst (d :: a') b' (by rw [List.cons_append, heq, List.cons_append]) (Nat.succ_lt_succ hlt)

theorem find_of_first {a b : Str} (h : r.matchAt a b = some m)
    (hfirst : ∀ a' b', a ++ b = a' ++ b' → a'.length < a.length → r.matchAt a' b' = none) :
    r.find (a ++ b) = some m := by
  have hfound : r.findFrom [] (a ++ b) = some m := findFrom_of_first h hfirst
  exact hfound

/-- A lazy repetition ends where the rest matches for the first time. -/
theorem loop_lazy {p : Char → Bool} {w s : Str} (n : ℕ) (hw : ∀ d ∈ w, p d = true) (hn : w.length ≤ n)
    (hk : ∀ a b, w = a ++ b → b ≠ [] → k (b ++ s) c = none) (hx : k s c = some x) :
    loop false (Re.go (.one p)) n (w ++ s) c k = some x := by
  induction w generalizing n with
  | nil =>
    cases n with
    | zero => exact hx
    | succ n => rw [List.nil_append, loop, if_neg Bool.false_ne_true, hx, Option.some_or]
  | cons d w ih =>
    obtain ⟨n, rfl⟩ := Nat.exists_eq_add_one_of_ne_zero (n := n) (by simp at hn; omega)
    rw [loop, if_neg Bool.false_ne_true, hk [] _ rfl (List.cons_ne_nil d w), Option.none_or, List.cons_append, go,
      if_pos (hw d List.mem_cons_self), if_pos (by simp)]
    refine ih n (fun e he ↦ hw e (List.mem_cons_of_mem d he)) (Nat.le_of_succ_le_succ hn) fun a b heq hb ↦ ?_
    exact hk (d :: a) b (by rw [heq, List.cons_append]) hb

theorem replaceFrom_succ (repl : Str) (n : ℕ) (hm : r.find s = some m) (hv : m.value ≠ []) :
    r.replaceFrom repl (n + 1) s = m.before ++ repl ++ r.replaceFrom repl n m.rest := by
  obtain ⟨before, value, rest, groups⟩ := m
  rw [replaceFrom, hm]
  cases value with
  | nil => exact (hv rfl).elim
  | cons d value => rfl

theorem spells_text {w v : Str} : (text w).Spells v ↔ v = w := by
  rw [text]
  induction w generalizing v with
  | nil => rfl
  | cons d w ih =>
    constructor
    · intro h
      obtain ⟨a, b, ⟨e, he, rfl⟩, hb, rfl⟩ := h
      obtain rfl : e = d := eq_of_beq he
      rw [ih.mp hb]
      rfl
    · intro heq
      subst heq
      exact ⟨[d], w, ⟨d, beq_self_eq_true _, rfl⟩, ih.mpr rfl, rfl⟩

theorem find_value_infix (h : r.find s = some m) : m.value <:+: s := by
  obtain ⟨hs, -, -⟩ := find_eq_some h
  rw [hs, ← List.append_assoc]
  exact ⟨m.before, m.rest, rfl⟩

end Re

end Strings
