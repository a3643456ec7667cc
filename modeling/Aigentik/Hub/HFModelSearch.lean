import Aigentik.Strings.Regex
import Mathlib.Data.Int.Notation

namespace Aigentik.HFModelSearch

open Strings

def HF_BASE_ENDPOINT : Str := "https://huggingface.co/api/models"

inductive ModelSortParam
  | none | downloads | author
  deriving DecidableEq

def ModelSortParam.value : ModelSortParam → Str
  | .none => []
  | .downloads => "downloads"
  | .author => "author"

inductive ModelSearchDirection
  | ascending | descending
  deriving DecidableEq

def ModelSearchDirection.value : ModelSearchDirection → Str
  | .ascending => "1"
  | .descending => "-1"

structure Query where
  query : Str
  author : Str
  filter : Str
  sort : ModelSortParam := .downloads
  direction : ModelSearchDirection := .descending
  limit : ℕ
  full : Bool := true
  config : Bool := true
  deriving DecidableEq

structure Get where
  url : Str
  parameters : List (Str × Str)
  deriving DecidableEq

/-- The search results are only passed on. -/
structure Response (α : Type) where
  link : Option Str
  body : List α

def boolText (b : Bool) : Str := if b then "true" else "false"

/-- The author is not sent. -/
def Query.parameters (q : Query) : List (Str × Str) :=
  [("search", q.query), ("filter", q.filter), ("sort", q.sort.value), ("direction", q.direction.value),
    ("limit", Nat.toDigits 10 q.limit), ("full", boolText q.full), ("config", boolText q.config)].map
    fun p ↦ (p.1.toList, p.2)

def linkRegex : Re :=
  .cat [.char '<',
    .group 1 (.cat [.text "http", .alt (.char 's') .empty, .text "://", .plus true (.one (· != '>'))]),
    .text ">;", .plus true .space, .text "rel=\"", .group 2 (.plus true (.one (· != '"'))), .char '"']

/-- The relations of a header, each with its address; of equal ones the last counts. -/
def parseLinkHeader (header : Str) : List (Str × Str) :=
  ((linkRegex.findAll header).map fun m ↦ (m.group 2, m.group 1)).reverse

variable {α : Type} (server : Get → Response α) (q : Query)

def request (pageURL : Str) : Get :=
  if pageURL = HF_BASE_ENDPOINT then ⟨HF_BASE_ENDPOINT, q.parameters⟩ else ⟨pageURL, []⟩

/-- The results, and the next value of `pageURL`. -/
def searchModels (pageURL : Str) : List α × Str :=
  let response := server (request q pageURL)
  match response.link with
  | none => ([], pageURL)
  | some linkHeader =>
    match (parseLinkHeader linkHeader).lookup "next".toList with
    | none => ([], pageURL)
    | some next => (response.body, next)

/-! Link headers -/

/-- An address and its relation. -/
structure Link where
  url : Str
  rel : Str
  absolute : ∃ host, host ≠ [] ∧ (url = "http://".toList ++ host ∨ url = "https://".toList ++ host)
  bracketed : '>' ∉ url
  named : rel ≠ []
  quoted : '"' ∉ rel

def Link.text (l : Link) : Str := "<".toList ++ (l.url ++ (">; rel=\"".toList ++ (l.rel ++ "\"".toList)))

def separated (links : List Link) : Str := links.flatMap fun l ↦ ", ".toList ++ l.text

def linkHeader : List Link → Str
  | [] => []
  | l :: rest => l.text ++ separated rest

variable {l : Link} {links : List Link} {rest : Str}

open Re in
theorem go_address {β : Type} {s : Str} {c : Captures} {k : Str → Captures → Option β} {x : β}
    (hs : ∀ d ∈ s.head?, (d != '>') = false) (hk : k s c = some x) :
    (cat [.text "http".toList, .alt (.char 's') .empty, .text "://".toList, .plus true (.one (· != '>'))]).go
      (l.url ++ s) c k = some x := by
  obtain ⟨host, hne, hurl⟩ := l.absolute
  have hhost : ∀ d ∈ host, (d != '>') = true := by
    intro d hd
    have := l.bracketed
    rcases hurl with hu | hu <;> rw [hu] at this <;> grind
  have tail : (cat [.text "://".toList, .plus true (.one (· != '>'))]).go ("://".toList ++ (host ++ s)) c k =
      some x := by
    rw [cat, go, text, go_lit, cat, go]
    exact go_plus_one hne hhost hs hk
  rw [cat, go, text]
  rcases hurl with hu | hu
  · rw [hu]
    change (Re.lit id _).go ("http".toList ++ ("://".toList ++ (host ++ s))) c _ = _
    rw [go_lit, cat, go]
    exact tail
  · rw [hu]
    change (Re.lit id _).go ("http".toList ++ ('s' :: ("://".toList ++ (host ++ s)))) c _ = _
    have letter : (Re.char 's').go ('s' :: ("://".toList ++ (host ++ s))) c (fun s' c' ↦
        (cat [.text "://".toList, .plus true (.one (· != '>'))]).go s' c' k) = some x := tail
    rw [go_lit, cat, go, go, letter]
    rfl

open Re in
theorem go_relation {β : Type} {k : Str → Captures → Option β} {x : β}
    (hk : k rest [(2, l.rel), (1, l.url)] = some x) :
    (cat [.text ">;".toList, .plus true .space, .text "rel=\"".toList,
      .group 2 (.plus true (.one (· != '"'))), .char '"']).go
      (">;".toList ++ (" ".toList ++ ("rel=\"".toList ++ (l.rel ++ ('"' :: rest))))) [(1, l.url)] k = some x := by
  have hrel : ∀ d ∈ l.rel, (d != '"') = true := by
    intro d hd
    have := l.quoted
    grind
  rw [cat, go, text, go_lit, cat, go]
  apply go_plus_one (by simp) (by simp; decide) (by simp; decide)
  rw [cat, go, text, go_lit, cat, go, go]
  apply go_plus_one l.named hrel (by simp)
  rw [take_matched]
  exact hk

theorem go_link {β : Type} {k : Str → Captures → Option β} {x : β}
    (hk : k rest [(2, l.rel), (1, l.url)] = some x) : linkRegex.go (l.text ++ rest) [] k = some x := by
  have text_eq : l.text ++ rest =
      '<' :: (l.url ++ (">;".toList ++ (" ".toList ++ ("rel=\"".toList ++ (l.rel ++ ('"' :: rest)))))) := by
    simp [Link.text]
  rw [text_eq, linkRegex, Re.cat, Re.go]
  change (Re.cat _).go _ _ _ = _
  rw [Re.cat, Re.go, Re.go]
  apply go_address (by simp)
  rw [Re.take_matched]
  exact go_relation hk

def Link.found (l : Link) (before rest : Str) : Re.Match := ⟨before, l.text, rest, [(2, l.rel), (1, l.url)]⟩

theorem matchAt_link (before : Str) : linkRegex.matchAt before (l.text ++ rest) = some (l.found before rest) := by
  apply go_link
  rw [Re.take_matched, Link.found]

theorem find_link : linkRegex.find (l.text ++ rest) = some (l.found [] rest) := by
  rw [Re.find]
  change Re.findFrom linkRegex [] ('<' :: _) = _
  rw [Re.findFrom]
  change (linkRegex.matchAt [] (l.text ++ rest)).or _ = _
  rw [matchAt_link, Option.some_or]

theorem find_separated : linkRegex.find (", ".toList ++ (l.text ++ rest)) = some (l.found ", ".toList rest) := by
  change Re.findFrom linkRegex [] (',' :: ' ' :: '<' :: _) = _
  rw [Re.findFrom, Re.findFrom, Re.findFrom]
  change (linkRegex.matchAt ", ".toList (l.text ++ rest)).or _ = _
  rw [matchAt_link, Option.some_or]

theorem findAllFrom_separated (n : ℕ) (hn : (separated links).length < n) :
    (linkRegex.findAllFrom n (separated links)).map (fun m ↦ (m.group 2, m.group 1)) =
      links.map fun l ↦ (l.rel, l.url) := by
  induction links generalizing n with
  | nil =>
    cases n with
    | zero => cases hn
    | succ n => rfl
  | cons l links ih =>
    cases n with
    | zero => cases hn
    | succ n =>
      have first : separated (l :: links) = ", ".toList ++ (l.text ++ separated links) := by simp [separated]
      rw [first] at hn ⊢
      simp only [List.length_append] at hn
      rw [Re.findAllFrom_succ n find_separated (by simp [Link.found, Link.text]), List.map_cons]
      exact congrArg _ (ih n (by simp at hn; omega))

/-- A header is read back as the relations and addresses that it was made of. -/
theorem parseLinkHeader_linkHeader (links : List Link) :
    parseLinkHeader (linkHeader links) = (links.map fun l ↦ (l.rel, l.url)).reverse := by
  rw [parseLinkHeader, Re.findAll]
  congr 1
  cases links with
  | nil => rfl
  | cons l links =>
    rw [linkHeader, Re.findAllFrom_succ _ find_link (by simp [Link.found, Link.text]), List.map_cons, List.map_cons]
    exact congrArg _ (findAllFrom_separated _ (by simp [Link.text]; omega))

theorem lookup_of_all {ps : List (Str × Str)} {k v : Str} (named : ∃ p ∈ ps, p.1 = k)
    (all : ∀ p ∈ ps, p.1 = k → p.2 = v) : ps.lookup k = some v := by
  induction ps with
  | nil => obtain ⟨p, hp, -⟩ := named; cases hp
  | cons p ps ih =>
    rw [List.lookup_cons]
    by_cases hk : p.1 = k
    · rw [beq_iff_eq.mpr hk.symm, ← all p List.mem_cons_self hk]
    · rw [beq_eq_false_iff_ne.mpr (Ne.symm hk)]
      apply ih
      · obtain ⟨p', hp', h⟩ := named
        rcases List.mem_cons.mp hp' with rfl | hp'
        · exact (hk h).elim
        · exact ⟨p', hp', h⟩
      · intro p' hp'
        exact all p' (List.mem_cons_of_mem _ hp')

/-- The header names the following page, and no other. -/
structure Continues (links : List Link) (url : Str) : Prop where
  named : ∃ l ∈ links, l.rel = "next".toList
  unique : ∀ l ∈ links, l.rel = "next".toList → l.url = url

def Final (links : List Link) : Prop := ∀ l ∈ links, l.rel ≠ "next".toList

theorem Continues.next {url : Str} (h : Continues links url) :
    (parseLinkHeader (linkHeader links)).lookup "next".toList = some url := by
  rw [parseLinkHeader_linkHeader]
  apply lookup_of_all
  · obtain ⟨l, hl, hrel⟩ := h.named
    exact ⟨(l.rel, l.url), by simpa using ⟨l, hl, rfl, rfl⟩, hrel⟩
  · intro p hp hrel
    simp only [List.mem_reverse, List.mem_map] at hp
    obtain ⟨l, hl, rfl⟩ := hp
    exact h.unique l hl hrel

theorem Final.next (h : Final links) : (parseLinkHeader (linkHeader links)).lookup "next".toList = none := by
  rw [parseLinkHeader_linkHeader, List.lookup_eq_none_iff]
  intro p hp
  simp only [List.mem_reverse, List.mem_map] at hp
  obtain ⟨l, hl, rfl⟩ := hp
  simpa using fun heq ↦ h l hl heq.symm

end Aigentik.HFModelSearch
