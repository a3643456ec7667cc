import Aigentik.Strings.Text

namespace Strings

/-- Regular expressions with ordered alternatives, greedy and lazy repetition
and numbered groups, matched by backtracking. -/
inductive Re
  | one (p : Char → Bool)
  | empty
  | seq (r s : Re)
  | alt (r s : Re)
  | star (greedy : Bool) (r : Re)
  | group (i : ℕ) (r : Re)

/-- The groups captured so far, the latest first. -/
abbrev Captures := List (ℕ × Str)

namespace Re

def char (c : Char) : Re := .one fun d ↦ d == c

/-- The text itself, under a character folding. -/
def lit (fold : Char → Char) : Str → Re
  | [] => .empty
  | c :: s => .seq (.one fun d ↦ fold d == fold c) (lit fold s)

def text (s : Str) : Re := lit id s

def cat : List Re → Re
  | [] => .empty
  | r :: rs => .seq r (cat rs)

/-- The alternatives in order. At least one is expected. -/
def any : List Re → Re
  | [] => .one fun _ ↦ false
  | [r] => r
  | r :: rs => .alt r (any rs)

def times (n : ℕ) (r : Re) : Re := cat (List.replicate n r)

def plus (greedy : Bool) (r : Re) : Re := .seq r (.star greedy r)

/-- Any character but a line terminator. -/
def dot : Re := .one fun c ↦
  !((10 ≤ c.toNat && c.toNat ≤ 13) || c.toNat == 0x85 || c.toNat == 0x2028 || c.toNat == 0x2029)

def anything : Re := .one fun _ ↦ true

def digit : Re := .one fun c ↦ (digitZeros ++ supplementaryZeros).any (inDigitBlock c)

def space : Re := .one fun c ↦
  c == '\t' || c == '\n' || c.toNat == 12 || c == '\r' || isSeparator c

/-- The iterations of a repetition. An iteration that consumes nothing ends the
attempt, so the fuel is the length of the rest. -/
def loop {β : Type} (greedy : Bool)
    (body : Str → Captures → (Str → Captures → Option β) → Option β) :
    ℕ → Str → Captures → (Str → Captures → Option β) → Option β
  | 0, s, c, k => k s c
  | n + 1, s, c, k =>
    let again := fun (_ : Unit) ↦ body s c fun s' c' ↦
      if s'.length < s.length then loop greedy body n s' c' k else none
    if greedy then (again ()).or (k s c) else (k s c).or (again ())

def go {β : Type} : Re → Str → Captures → (Str → Captures → Option β) → Option β
  | .one _, [], _, _ => none
  | .one p, d :: s, c, k => if p d then k s c else none
  | .empty, s, c, k => k s c
  | .seq r t, s, c, k => r.go s c fun s' c' ↦ t.go s' c' k
  | .alt r t, s, c, k => (r.go s c k).or (t.go s c k)
  | .star greedy r, s, c, k => loop greedy r.go s.length s c k
  | .group i r, s, c, k => r.go s c fun s' c' ↦ k s' ((i, s.take (s.length - s'.length)) :: c')

structure Match where
  before : Str
  value : Str
  rest : Str
  groups : Captures

def matchAt (r : Re) (before s : Str) : Option Match :=
  r.go s [] fun rest groups ↦ some ⟨before, s.take (s.length - rest.length), rest, groups⟩

def findFrom (r : Re) : Str → Str → Option Match
  | before, [] => r.matchAt before []
  | before, c :: s => (r.matchAt before (c :: s)).or (r.findFrom (before ++ [c]) s)

/-- The leftmost match. -/
def find (r : Re) (s : Str) : Option Match := r.findFrom [] s

def Match.group (m : Match) (i : ℕ) : Str := (m.groups.lookup i).getD []

def replaceFrom (r : Re) (repl : Str) : ℕ → Str → Str
  | 0, s => s
  | n + 1, s =>
    match r.find s with
    | none => s
    | some m =>
      match m.value, m.rest with
      | [], [] => m.before ++ repl
      | [], c :: rest => m.before ++ repl ++ c :: replaceFrom r repl n rest
      | _ :: _, rest => m.before ++ repl ++ replaceFrom r repl n rest

def replaceAll (r : Re) (repl s : Str) : Str := r.replaceFrom repl (s.length + 1) s

def findAllFrom (r : Re) : ℕ → Str → List Match
  | 0, _ => []
  | n + 1, s =>
    match r.find s with
    | none => []
    | some m =>
      match m.value, m.rest with
      | [], [] => [m]
      | [], _ :: rest => m :: findAllFrom r n rest
      | _ :: _, rest => m :: findAllFrom r n rest

def findAll (r : Re) (s : Str) : List Match := r.findAllFrom (s.length + 1) s

/-! Matching a text of known form -/

variable {β : Type} {p : Char → Bool} {w s : Str} {c : Captures} {k : Str → Captures → Option β} {x : β}

theorem go_lit (fold : Char → Char) : (lit fold w).go (w ++ s) c k = k s c := by
  induction w with
  | nil => rfl
  | cons d w ih =>
    rw [lit, List.cons_append, go, go, if_pos (beq_self_eq_true _)]
    exact ih

/-- A greedy repetition takes every character that it can, if the rest then matches. -/
theorem loop_one (n : ℕ) (hw : ∀ d ∈ w, p d = true) (hs : ∀ d ∈ s.head?, p d = false) (hk : k s c = some x)
    (hn : w.length ≤ n) : loop true (Re.go (.one p)) n (w ++ s) c k = some x := by
  induction w generalizing n with
  | nil =>
    cases n with
    | zero => exact hk
    | succ n =>
      rw [List.nil_append, loop, if_pos rfl]
      cases s with
      | nil => exact hk
      | cons d s =>
        rw [go, hs d rfl]
        exact hk
  | cons d w ih =>
    cases n with
    | zero => cases hn
    | succ n =>
      rw [List.cons_append, loop, if_pos rfl, go, if_pos (hw d List.mem_cons_self), if_pos (by simp),
        ih n (fun d hd ↦ hw d (List.mem_cons_of_mem _ hd)) (Nat.le_of_succ_le_succ hn)]
      rfl

theorem go_plus_one (hne : w ≠ []) (hw : ∀ d ∈ w, p d = true) (hs : ∀ d ∈ s.head?, p d = false)
    (hk : k s c = some x) : (plus true (.one p)).go (w ++ s) c k = some x := by
  cases w with
  | nil => exact (hne rfl).elim
  | cons d w =>
    rw [plus, go, List.cons_append, go, if_pos (hw d List.mem_cons_self), go]
    exact loop_one _ (fun d hd ↦ hw d (List.mem_cons_of_mem _ hd)) hs hk (by simp)

theorem findAllFrom_succ {r : Re} {m : Match} (n : ℕ) (hm : r.find s = some m) (hv : m.value ≠ []) :
    r.findAllFrom (n + 1) s = m :: r.findAllFrom n m.rest := by
  rw [findAllFrom, hm]
  obtain ⟨before, value, rest, groups⟩ := m
  cases value with
  | nil => exact (hv rfl).elim
  | cons d value => rfl

theorem take_matched (w s : Str) : (w ++ s).take ((w ++ s).length - s.length) = w := by simp

end Re

end Strings
