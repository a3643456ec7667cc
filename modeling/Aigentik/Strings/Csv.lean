import Aigentik.Strings.Text

/-! Comma-separated values as in RFC 4180, in lines that end with LF or CR LF. -/

namespace Csv

open Strings

/-- Where a reader is in a field: at its start, in it, between its quotes, behind the second quote,
or behind the CR of a line end. -/
inductive Place
  | start | plain | quoted | closed | cr
  deriving DecidableEq

/-- The records that are complete, the fields of the next one, and what there is of its next field. -/
structure Reader where
  records : List (List Str) := []
  record : List Str := []
  field : Str := []
  place : Place := .start

def isSpecial (c : Char) : Bool := c = ',' ∨ c = '"' ∨ c = '\n' ∨ c = '\r'

/-- Text that may stand without quotes. -/
def Plain (s : Str) : Prop := ∀ c ∈ s, isSpecial c = false

instance (s : Str) : Decidable (Plain s) := List.decidableBAll _ _

namespace Reader

variable (r : Reader)

def endField : Reader := { r with record := r.record ++ [r.field], field := [], place := .start }

def endRecord : Reader := { records := r.records ++ [r.record ++ [r.field]] }

/-- A quote begins a field, or is the second one of a pair. -/
def quote : Option Reader :=
  match r.place with
  | .start => some { r with place := .quoted }
  | .closed => some { r with field := r.field ++ ['"'], place := .quoted }
  | _ => none

def step (c : Char) : Option Reader :=
  match r.place with
  | .quoted => some (if c = '"' then { r with place := .closed } else { r with field := r.field ++ [c] })
  | .cr => if c = '\n' then some r.endRecord else none
  | .start | .plain | .closed =>
    if c = ',' then some r.endField
    else if c = '\n' then some r.endRecord
    else if c = '\r' then some { r with place := .cr }
    else if c = '"' then r.quote
    else if r.place = .closed then none
    else some { r with field := r.field ++ [c], place := .plain }

/-- The last line may have an end or not. -/
def finish : Option (List (List Str)) :=
  match r.place with
  | .quoted | .cr => none
  | .start => some (if r.record = [] then r.records else r.endRecord.records)
  | .plain | .closed => some r.endRecord.records

def read : Reader → Str → Option (List (List Str))
  | r, [] => r.finish
  | r, c :: s => (r.step c).bind fun r ↦ read r s

end Reader

def parse (s : Str) : Option (List (List Str)) := Reader.read {} s

def doubled (s : Str) : Str := s.flatMap fun c ↦ if c = '"' then ['"', '"'] else [c]

/-- The text of a field with this value. -/
def Spells (w v : Str) : Prop := w = v ∧ Plain v ∨ w = '"' :: (doubled v ++ ['"'])

/-- Outside of quotes, in a field that may still be plain. -/
def Reader.Open (r : Reader) : Prop := r.place = .start ∨ r.place = .plain

structure Reader.Fresh (r : Reader) : Prop where
  place : r.place = .start
  field : r.field = []

variable {r r' : Reader} {s t w v : Str} {out : List (List Str)} {c : Char}

theorem plain_cons : Plain (c :: s) ↔ isSpecial c = false ∧ Plain s := List.forall_mem_cons

theorem isSpecial_eq_false : isSpecial c = false ↔ c ≠ ',' ∧ c ≠ '"' ∧ c ≠ '\n' ∧ c ≠ '\r' := by
  simp [isSpecial]

namespace Reader

/-! What is read -/

theorem step_plain (hr : r.Open) (hc : isSpecial c = false) :
    r.step c = some { r with field := r.field ++ [c], place := .plain } := by
  obtain ⟨hcomma, hquote, hlf, hcr⟩ := isSpecial_eq_false.mp hc
  rcases hr with hr | hr <;> simp [step, hr, hcomma, hquote, hlf, hcr]

theorem step_comma (hr : r.Open ∨ r.place = .closed) : r.step ',' = some r.endField := by
  rcases hr with (hr | hr) | hr <;> simp [step, hr]

theorem step_lf (hr : r.Open ∨ r.place = .closed) : r.step '\n' = some r.endRecord := by
  rcases hr with (hr | hr) | hr <;> simp [step, hr]

theorem Fresh.isOpen (h : r.Fresh) : r.Open := .inl h.place

theorem read_plain (hr : r.Open) (hw : Plain w) (s : Str) : r.read (w ++ s) =
    Reader.read { r with field := r.field ++ w, place := if w = [] then r.place else .plain } s := by
  induction w generalizing r with
  | nil => rw [List.append_nil, if_pos rfl]; rfl
  | cons c w ih =>
    obtain ⟨hc, hw⟩ := plain_cons.mp hw
    rw [List.cons_append, read, step_plain hr hc, Option.bind_some, ih (.inr rfl) hw, if_neg (List.cons_ne_nil c w),
      ite_self, List.append_assoc]
    rfl

theorem read_doubled (hr : r.place = .quoted) (v s : Str) :
    r.read (doubled v ++ s) = Reader.read { r with field := r.field ++ v } s := by
  induction v generalizing r with
  | nil => rw [List.append_nil]; rfl
  | cons c v ih =>
    have happend : r.field ++ c :: v = r.field ++ [c] ++ v := by rw [List.append_assoc]; rfl
    by_cases hc : c = '"'
    · have hdoubled : doubled (c :: v) ++ s = '"' :: '"' :: (doubled v ++ s) := by simp [doubled, hc]
      have hopened : r.step '"' = some { r with place := .closed } := by simp [step, hr]
      have hagain : Reader.step { r with place := .closed } '"' =
          some { r with field := r.field ++ ['"'], place := .quoted } := by simp [step, quote]
      rw [hdoubled, read, hopened, Option.bind_some, read, hagain, Option.bind_some, ih rfl, happend, hc, ← hr]
    · have hdoubled : doubled (c :: v) ++ s = c :: (doubled v ++ s) := by simp [doubled, hc]
      have hstep : r.step c = some { r with field := r.field ++ [c] } := by simp [step, hr, hc]
      have hquoted : place { r with field := r.field ++ [c] } = .quoted := hr
      rw [hdoubled, read, hstep, Option.bind_some, ih hquoted, happend]

theorem read_spelled (h : Spells w v) (hr : r.Fresh) (s : Str) : ∃ r', (r'.Open ∨ r'.place = .closed) ∧
    r.read (w ++ s) = Reader.read r' s ∧ r'.records = r.records ∧ r'.record = r.record ∧ r'.field = v := by
  have hfield (u : Str) : r.field ++ u = u := by rw [hr.field, List.nil_append]
  rcases h with ⟨rfl, hplain⟩ | rfl
  · refine ⟨_, .inl ?_, read_plain hr.isOpen hplain s, rfl, rfl, hfield w⟩
    by_cases hnil : w = []
    · exact .inl ((if_pos hnil).trans hr.place)
    · exact .inr (if_neg hnil)
  · have hopened : r.step '"' = some { r with place := .quoted } := by simp [step, quote, hr.place]
    have hclosed : Reader.step { r with field := r.field ++ v, place := .quoted } '"' =
        some { r with field := r.field ++ v, place := .closed } := by simp [step]
    refine ⟨{ r with field := r.field ++ v, place := .closed }, .inr rfl, ?_, rfl, rfl, hfield v⟩
    rw [List.cons_append, read, hopened, Option.bind_some, List.append_assoc, read_doubled rfl, List.singleton_append,
      read, hclosed, Option.bind_some]

theorem read_field (h : Spells w v) (hr : r.Fresh) (s : Str) :
    r.read (w ++ ',' :: s) = Reader.read { r with record := r.record ++ [v] } s := by
  obtain ⟨r', hplace, hread, hrecords, hrecord, hfield⟩ := read_spelled h hr (',' :: s)
  rw [hread, read, step_comma hplace, Option.bind_some, endField, hrecords, hrecord, hfield, ← hr.field, ← hr.place]

theorem read_last_field (h : Spells w v) (hr : r.Fresh) (s : Str) :
    r.read (w ++ '\n' :: s) = Reader.read { records := r.records ++ [r.record ++ [v]] } s := by
  obtain ⟨r', hplace, hread, hrecords, hrecord, hfield⟩ := read_spelled h hr ('\n' :: s)
  rw [hread, read, step_lf hplace, Option.bind_some, endRecord, hrecords, hrecord, hfield]

theorem read_record {ws vs : List Str} (h : List.Forall₂ Spells ws vs) (hne : ws ≠ []) (hr : r.Fresh) (s : Str) :
    r.read (joinToString [','] ws ++ '\n' :: s) = Reader.read { records := r.records ++ [r.record ++ vs] } s := by
  induction h generalizing r with
  | nil => exact absurd rfl hne
  | @cons w v ws vs hw hrest ih =>
    cases hrest with
    | nil => exact read_last_field hw hr s
    | @cons w' v' ws vs hw' hrest =>
      have hjoin : joinToString [','] (w :: w' :: ws) ++ '\n' :: s =
          w ++ ',' :: (joinToString [','] (w' :: ws) ++ '\n' :: s) := by simp [joinToString]
      have hnext : Fresh { r with record := r.record ++ [v] } := ⟨hr.place, hr.field⟩
      rw [hjoin, read_field hw hr, ih (List.cons_ne_nil _ _) hnext, List.append_assoc]
      rfl

end Reader

/-! What was read -/

namespace Reader

/-- What is read begins with what is complete already, and has one more field in a record that has
begun. -/
structure Extends (r : Reader) (out : List (List Str)) : Prop where
  records : r.records <+: out
  record : r.record ≠ [] → ∃ rec, out[r.records.length]? = some rec ∧ r.record <+: rec ∧ r.record.length < rec.length

theorem Extends.of_same (h : Extends r' out) (hrecords : r'.records = r.records) (hrecord : r'.record = r.record) :
    Extends r out := by
  refine ⟨hrecords ▸ h.records, fun hne ↦ ?_⟩
  obtain ⟨rec, hout, hprefix, hlength⟩ := h.record (hrecord ▸ hne)
  rw [hrecords] at hout
  rw [hrecord] at hprefix hlength
  exact ⟨rec, hout, hprefix, hlength⟩

theorem Extends.of_endField (h : Extends r.endField out) : Extends r out := by
  refine ⟨h.records, fun _ ↦ ?_⟩
  obtain ⟨rec, hout, hprefix, hlength⟩ := h.record (List.append_ne_nil_of_right_ne_nil _ (List.cons_ne_nil _ _))
  refine ⟨rec, hout, (List.prefix_append _ _).trans hprefix, ?_⟩
  simp only [endField, List.length_append, List.length_singleton] at hlength
  omega

theorem extends_of_prefix (h : r.endRecord.records <+: out) : Extends r out := by
  obtain ⟨rest, rfl⟩ := h
  refine ⟨⟨[r.record ++ [r.field]] ++ rest, (List.append_assoc ..).symm⟩, fun _ ↦ ?_⟩
  refine ⟨r.record ++ [r.field], ?_, List.prefix_append _ _, by simp⟩
  simp [endRecord]

/-- A step ends the field, or the record with it, or neither. -/
theorem step_cases (h : r.step c = some r') :
    r' = r.endField ∨ r' = r.endRecord ∨ r'.records = r.records ∧ r'.record = r.record := by
  unfold step quote at h
  grind

theorem Extends.of_step (h : Extends r' out) (hstep : r.step c = some r') : Extends r out := by
  rcases step_cases hstep with rfl | rfl | ⟨hrecords, hrecord⟩
  · exact h.of_endField
  · exact extends_of_prefix h.records
  · exact h.of_same hrecords hrecord

theorem extends_of_read (h : r.read s = some out) : Extends r out := by
  induction s generalizing r with
  | nil =>
    unfold read finish at h
    split at h
    · cases h
    · cases h
    · cases h
      split
      · rename_i hnil
        exact ⟨List.prefix_refl _, fun hne ↦ absurd hnil hne⟩
      · exact extends_of_prefix (List.prefix_refl _)
    all_goals
      cases h
      exact extends_of_prefix (List.prefix_refl _)
  | cons c s ih =>
    obtain ⟨r', hstep, hread⟩ := Option.bind_eq_some_iff.mp h
    exact (ih hread).of_step hstep

/-- The field that is being read turns out to have this value. -/
def Gives (r : Reader) (out : List (List Str)) (v : Str) : Prop :=
  ∃ rec, out[r.records.length]? = some rec ∧ rec[r.record.length]? = some v

theorem Gives.unique (h : r.Gives out v) (h' : r.Gives out w) : v = w := by
  obtain ⟨rec, hrec, hv⟩ := h
  obtain ⟨rec', hrec', hw⟩ := h'
  obtain rfl : rec = rec' := Option.some.inj (hrec.symm.trans hrec')
  exact Option.some.inj (hv.symm.trans hw)

theorem Extends.gives_endField (h : Extends r.endField out) : r.Gives out r.field := by
  obtain ⟨rec, hout, hprefix, -⟩ := h.record (List.append_ne_nil_of_right_ne_nil _ (List.cons_ne_nil _ _))
  obtain ⟨rest, rfl⟩ := hprefix
  exact ⟨_, hout, by simp [endField]⟩

theorem gives_endRecord (h : r.endRecord.records <+: out) : r.Gives out r.field := by
  obtain ⟨rest, rfl⟩ := h
  exact ⟨r.record ++ [r.field], by simp [endRecord], by simp⟩

theorem gives_of_special (hr : r.Open ∨ r.place = .closed) (hc : isSpecial c = true) (hquote : c ≠ '"')
    (h : r.read (c :: s) = some out) : r.Gives out r.field := by
  have hends : c = ',' ∨ c = '\n' ∨ c = '\r' := by simpa [isSpecial, hquote] using hc
  rcases hends with rfl | rfl | rfl
  · rw [read, step_comma hr, Option.bind_some] at h
    exact (extends_of_read h).gives_endField
  · rw [read, step_lf hr, Option.bind_some] at h
    exact gives_endRecord (extends_of_read h).records
  · have hstep : r.step '\r' = some { r with place := .cr } := by
      rcases hr with (hr | hr) | hr <;> simp [step, hr]
    rw [read, hstep, Option.bind_some] at h
    cases s with
    | nil => cases h
    | cons d s =>
      by_cases hd : d = '\n'
      · have hend : Reader.step { r with place := .cr } d = some r.endRecord := by simp [step, hd, endRecord]
        rw [read, hend, Option.bind_some] at h
        exact gives_endRecord (extends_of_read h).records
      · have hnone : Reader.step { r with place := .cr } d = none := by simp [step, hd]
        rw [read, hnone] at h
        cases h

theorem gives_of_closed (hr : r.place = .closed) (hs : s.head? ≠ some '"') (h : r.read s = some out) :
    r.Gives out r.field := by
  cases s with
  | nil =>
    have hfinish : r.finish = some r.endRecord.records := by simp [finish, hr]
    rw [read, hfinish] at h
    cases h
    exact gives_endRecord (List.prefix_refl _)
  | cons c s =>
    have hquote : c ≠ '"' := fun hc ↦ hs (congrArg some hc)
    cases hc : isSpecial c with
    | true => exact gives_of_special (.inr hr) hc hquote h
    | false =>
      obtain ⟨hcomma, -, hlf, hcr⟩ := isSpecial_eq_false.mp hc
      have hnone : r.step c = none := by simp [step, hr, hcomma, hquote, hlf, hcr]
      rw [read, hnone] at h
      cases h

/-- Behind a quote there is a text with doubled quotes, and a quote that closes it. -/
theorem gives_of_quoted (hr : r.place = .quoted) (h : r.read t = some out) :
    ∃ v s, t = doubled v ++ '"' :: s ∧ r.Gives out (r.field ++ v) := by
  induction hn : t.length using Nat.strong_induction_on generalizing r t with
  | _ n ih =>
    subst hn
    cases t with
    | nil =>
      have hnone : r.finish = none := by simp [finish, hr]
      rw [read, hnone] at h
      cases h
    | cons c t =>
      by_cases hc : c = '"'
      · have hclosed : r.step c = some { r with place := .closed } := by simp [step, hr, hc]
        rw [read, hclosed, Option.bind_some] at h
        by_cases hhead : t.head? = some '"'
        · obtain ⟨u, rfl⟩ := List.head?_eq_some_iff.mp hhead
          have hagain : Reader.step { r with place := .closed } '"' =
              some { r with field := r.field ++ ['"'], place := .quoted } := by simp [step, quote]
          rw [read, hagain, Option.bind_some] at h
          obtain ⟨v, s, rfl, hgives⟩ := ih u.length (by rw [List.length_cons, List.length_cons]; omega) rfl h rfl
          refine ⟨'"' :: v, s, by simp [doubled, hc], ?_⟩
          rw [List.append_assoc] at hgives
          exact hgives
        · refine ⟨[], t, by rw [hc]; rfl, ?_⟩
          rw [List.append_nil]
          exact gives_of_closed (r := { r with place := .closed }) rfl hhead h
      · have hstep : r.step c = some { r with field := r.field ++ [c] } := by simp [step, hr, hc]
        rw [read, hstep, Option.bind_some] at h
        obtain ⟨v, s, rfl, hgives⟩ := ih t.length (by simp) (r := { r with field := r.field ++ [c] }) hr h rfl
        refine ⟨c :: v, s, by simp [doubled, hc], ?_⟩
        rw [List.append_assoc] at hgives
        exact hgives

def lead (s : Str) : ℕ := (s.takeWhile fun c ↦ c = '"').length

theorem lead_doubled (v s : Str) : 2 * lead v ≤ lead (doubled v ++ s) := by
  induction v with
  | nil => exact Nat.zero_le _
  | cons c v ih =>
    by_cases hc : c = '"'
    · have hdoubled : doubled (c :: v) ++ s = '"' :: '"' :: (doubled v ++ s) := by simp [doubled, hc]
      rw [hdoubled, hc]
      simp only [lead, List.takeWhile_cons, decide_true, if_true, List.length_cons] at ih ⊢
      omega
    · simp [lead, hc]

theorem lead_append (hc : c ≠ '"') (w s : Str) : lead (w ++ c :: s) = lead w := by
  induction w with
  | nil => simp [lead, hc]
  | cons d w ih =>
    by_cases hd : d = '"'
    · simp only [lead, List.cons_append, List.takeWhile_cons, hd, decide_true, if_true, List.length_cons] at ih ⊢
      rw [ih]
    · simp [lead, hd]

theorem exists_special (h : ¬Plain w) : ∃ a c b, w = a ++ c :: b ∧ Plain a ∧ isSpecial c = true := by
  cases hfind : w.find? isSpecial with
  | none => exact absurd (fun c hc ↦ by simpa using List.find?_eq_none.mp hfind c hc) h
  | some c =>
    obtain ⟨hc, a, b, hw, ha⟩ := List.find?_eq_some_iff_append.mp hfind
    exact ⟨a, c, b, hw, fun d hd ↦ by simpa using ha d hd, hc⟩

/-- A field that is written as it is and read as it is was plain. -/
theorem plain_of_gives (hr : r.Fresh) (hquote : c ≠ '"')
    (h : r.read (w ++ c :: s) = some out) (hgives : r.Gives out w) : Plain w := by
  by_contra hnot
  obtain ⟨a, d, b, hw, ha, hd⟩ := exists_special hnot
  have hopen : Reader.Open { r with field := a, place := if a = [] then r.place else .plain } := by
    by_cases hnil : a = []
    · exact .inl ((if_pos hnil).trans hr.place)
    · exact .inr (if_neg hnil)
  have hread := h
  rw [hw, List.append_assoc, read_plain hr.isOpen ha, hr.field, List.nil_append] at hread
  by_cases hdquote : d = '"'
  · by_cases hnil : a = []
    · -- the field would begin with more quotes than the text has
      subst hnil hdquote
      have hopened : r.step '"' = some { r with place := .quoted } := by simp [step, quote, hr.place]
      rw [hw, List.nil_append, List.cons_append, read, hopened, Option.bind_some] at h
      obtain ⟨v, u, htext, hgives'⟩ := gives_of_quoted (r := { r with place := .quoted }) rfl h
      rw [hr.field, List.nil_append] at hgives'
      obtain rfl : v = w := Gives.unique (r := r) hgives' hgives
      have hlead : lead (v ++ c :: s) = lead ('"' :: (doubled v ++ '"' :: u)) := by
        rw [← htext, hw]
        rfl
      have hdoubled := lead_doubled v ('"' :: u)
      have hcons (t : Str) : lead ('"' :: t) = lead t + 1 := by simp [lead]
      rw [lead_append hquote, hcons] at hlead
      omega
    · have hnone : Reader.step { r with field := a, place := if a = [] then r.place else .plain } d = none := by
        simp [step, quote, hdquote, hnil]
      rw [List.cons_append, read, hnone] at hread
      cases hread
  · have hshort : r.Gives out a := gives_of_special (.inl hopen) hd hdquote hread
    have hlength := congrArg List.length (hshort.unique hgives)
    rw [hw, List.length_append, List.length_cons] at hlength
    omega

/-- Text whose only special characters are commas, and a comma behind it: a plain field more for
each of the commas. -/
theorem read_commas (hr : r.Open) (hfield : Plain r.field) (hw : ∀ c ∈ w, c = ',' ∨ isSpecial c = false) (s : Str) :
    ∃ vs : List Str, vs.length = w.count ',' + 1 ∧ (∀ v ∈ vs, Plain v) ∧
      r.read (w ++ ',' :: s) = Reader.read { r with record := r.record ++ vs, field := [], place := .start } s := by
  induction w generalizing r with
  | nil =>
    refine ⟨[r.field], rfl, List.forall_mem_singleton.mpr hfield, ?_⟩
    rw [List.nil_append, read, step_comma (.inl hr), Option.bind_some]
    rfl
  | cons c w ih =>
    obtain ⟨hc, hrest⟩ := List.forall_mem_cons.mp hw
    rcases hc with rfl | hc
    · obtain ⟨vs, hlength, hplain, hread⟩ := ih (r := r.endField) (.inl rfl) (fun _ h ↦ nomatch h) hrest
      refine ⟨r.field :: vs, by simp [hlength], List.forall_mem_cons.mpr ⟨hfield, hplain⟩, ?_⟩
      rw [List.cons_append, read, step_comma (.inl hr), Option.bind_some, hread]
      simp [endField]
    · have hne : c ≠ ',' := (isSpecial_eq_false.mp hc).1
      have hnext : Plain (r.field ++ [c]) := by
        intro d hd
        rcases List.mem_append.mp hd with hd | hd
        · exact hfield d hd
        · rwa [List.mem_singleton.mp hd]
      obtain ⟨vs, hlength, hplain, hread⟩ :=
        ih (r := { r with field := r.field ++ [c], place := .plain }) (.inr rfl) hnext hrest
      refine ⟨vs, by rw [hlength, List.count_cons_of_ne hne], hplain, ?_⟩
      rw [List.cons_append, read, step_plain hr hc, Option.bind_some, hread]

end Reader

end Csv
