import Aigentik.Hub.HFModelSearch

namespace Aigentik.SearchPages

open Strings HFModelSearch

variable {α : Type} {server : Get → Response α} {q : Query}

/-- The pages of a result list that the server gives from a request on. Each but
the last names the address of the next one, which is not that of a new search. -/
inductive Served (server : Get → Response α) : Get → List (List α) → Prop
  | only {get : Get} {page : List α} : server get = ⟨none, page⟩ → Served server get [page]
  | last {get : Get} {page : List α} {links : List Link} :
      server get = ⟨some (linkHeader links), page⟩ → Final links → Served server get [page]
  | page {get : Get} {page : List α} {links : List Link} {url : Str} {pages : List (List α)} :
      server get = ⟨some (linkHeader links), page⟩ → Continues links url → url ≠ HF_BASE_ENDPOINT →
      Served server ⟨url, []⟩ pages → Served server get (page :: pages)

/-- The results of searching on until a call gives none. -/
inductive Drained (server : Get → Response α) (q : Query) : Str → List α → Prop
  | stop {pageURL : Str} : (searchModels server q pageURL).1 = [] → Drained server q pageURL []
  | more {pageURL : Str} {results : List α} : (searchModels server q pageURL).1 ≠ [] →
      Drained server q (searchModels server q pageURL).2 results →
      Drained server q pageURL ((searchModels server q pageURL).1 ++ results)

theorem request_next {url : Str} (h : url ≠ HF_BASE_ENDPOINT) : request q url = ⟨url, []⟩ := if_neg h

/-! One call -/

section call

variable {pageURL url : Str} {links : List Link} {page : List α}

theorem searchModels_only (h : server (request q pageURL) = ⟨none, page⟩) :
    searchModels server q pageURL = ([], pageURL) := by
  rw [searchModels, h]

theorem searchModels_last (h : server (request q pageURL) = ⟨some (linkHeader links), page⟩) (hf : Final links) :
    searchModels server q pageURL = ([], pageURL) := by
  rw [searchModels, h]
  simp only [hf.next]

theorem searchModels_page (h : server (request q pageURL) = ⟨some (linkHeader links), page⟩)
    (hc : Continues links url) : searchModels server q pageURL = (page, url) := by
  rw [searchModels, h]
  simp only [hc.next]

end call

/-! A whole search -/

/-- The results that come before the last page and before the first empty page. -/
def shown : List (List α) → List α
  | [] => []
  | [_] => []
  | [] :: _ :: _ => []
  | (x :: page) :: next :: pages => x :: page ++ shown (next :: pages)

theorem Served.ne_nil {get : Get} {pages : List (List α)} (h : Served server get pages) : pages ≠ [] := by
  cases h <;> exact List.cons_ne_nil _ _

theorem shown_nil_cons {pages : List (List α)} : shown ([] :: pages) = [] := by
  cases pages <;> rfl

theorem shown_cons {page : List α} {pages : List (List α)} (hp : page ≠ []) (hne : pages ≠ []) :
    shown (page :: pages) = page ++ shown pages := by
  cases page with
  | nil => exact (hp rfl).elim
  | cons x page =>
    cases pages with
    | nil => exact (hne rfl).elim
    | cons next pages => rfl

theorem drained_of_empty {pageURL : Str} (h : (searchModels server q pageURL).1 = []) {results : List α} :
    Drained server q pageURL results ↔ results = [] := by
  constructor
  · intro hd
    cases hd with
    | stop => rfl
    | more hne => exact (hne h).elim
  · intro heq
    subst heq
    exact .stop h

theorem drained_of_page {pageURL url : Str} {page : List α}
    (h : searchModels server q pageURL = (page, url)) (hne : page ≠ []) {results : List α} :
    Drained server q pageURL results ↔ ∃ rest, Drained server q url rest ∧ results = page ++ rest := by
  have h1 : (searchModels server q pageURL).1 = page := by rw [h]
  have h2 : (searchModels server q pageURL).2 = url := by rw [h]
  constructor
  · intro hd
    cases hd with
    | stop hs => exact (hne (h1.symm.trans hs)).elim
    | more _ hrest => exact ⟨_, h2 ▸ hrest, by rw [h1]⟩
  · intro h'
    obtain ⟨rest, hrest, rfl⟩ := h'
    rw [← h1]
    exact .more (h1 ▸ hne) (h2 ▸ hrest)

/-- A search that is repeated until it gives nothing ends, with exactly the results shown. -/
theorem drained_iff_shown {get : Get} {pages : List (List α)} (h : Served server get pages) {pageURL : Str}
    (hget : request q pageURL = get) {results : List α} :
    Drained server q pageURL results ↔ results = shown pages := by
  induction h generalizing pageURL results with
  | only hs =>
    subst hget
    rw [drained_of_empty (by rw [searchModels_only hs])]
    rfl
  | last hs hf =>
    subst hget
    rw [drained_of_empty (by rw [searchModels_last hs hf])]
    rfl
  | @page get page links url pages hs hc hne rest ih =>
    subst hget
    have call := searchModels_page hs hc
    by_cases hp : page = []
    · rw [drained_of_empty (by rw [call, hp]), hp, shown_nil_cons]
    · rw [drained_of_page call hp, shown_cons hp rest.ne_nil]
      constructor
      · intro h'
        obtain ⟨more, hmore, rfl⟩ := h'
        rw [(ih (request_next hne)).mp hmore]
      · intro heq
        subst heq
        exact ⟨_, (ih (request_next hne)).mpr rfl, rfl⟩

/-- Nothing is left out exactly if the last page is empty and the first empty page is followed by
empty ones. -/
theorem shown_eq_flatten_iff {pages : List (List α)} (hne : pages ≠ []) :
    shown pages = pages.flatten ↔
      pages.getLast? = some [] ∧ pages.Pairwise fun page later ↦ page = [] → later = [] := by
  induction pages with
  | nil => exact (hne rfl).elim
  | cons page pages ih =>
    cases pages with
    | nil =>
      simp [shown, eq_comm]
    | cons next pages =>
      rw [List.getLast?_cons_cons, List.pairwise_cons]
      by_cases hp : page = []
      · rw [hp, shown_nil_cons, List.flatten_cons, List.nil_append]
        constructor
        · intro hnil
          have all := List.flatten_eq_nil_iff.mp hnil.symm
          refine ⟨?_, fun later hl _ ↦ all later hl, ?_⟩
          · rw [List.getLast?_eq_some_getLast (List.cons_ne_nil _ _), all _ (List.getLast_mem _)]
          · exact List.pairwise_of_forall_mem_list fun _ _ later hl _ ↦ all later hl
        · intro h
          obtain ⟨-, all, -⟩ := h
          exact (List.flatten_eq_nil_iff.mpr fun later hl ↦ all later hl rfl).symm
      · rw [shown_cons hp (List.cons_ne_nil _ _), List.flatten_cons, List.append_cancel_left_eq,
          ih (List.cons_ne_nil _ _)]
        simp [hp]

theorem pages_complete_iff {pages : List (List α)} (h : Served server (request q HF_BASE_ENDPOINT) pages) :
    Drained server q HF_BASE_ENDPOINT pages.flatten ↔
      pages.getLast? = some [] ∧ pages.Pairwise fun page later ↦ page = [] → later = [] := by
  rw [drained_iff_shown h rfl, eq_comm, shown_eq_flatten_iff h.ne_nil]

section

def nextURL : Str := "https://huggingface.co/api/models?cursor=2"

def follow : Link where
  url := nextURL
  rel := "next"
  absolute := ⟨"huggingface.co/api/models?cursor=2".toList, by decide, .inr rfl⟩
  bracketed := by decide
  named := by decide
  quoted := by decide

/-- A server with two pages of results. -/
def twoPages (first second : List ℕ) (get : Get) : Response ℕ :=
  if get.url = HF_BASE_ENDPOINT then ⟨some (linkHeader [follow]), first⟩ else ⟨none, second⟩

theorem twoPages_served (first second : List ℕ) :
    Served (twoPages first second) (request q HF_BASE_ENDPOINT) [first, second] := by
  have named : Continues [follow] nextURL := by
    constructor
    · exact ⟨follow, by simp, rfl⟩
    · intro l hl _
      rw [List.mem_singleton.mp hl]
      rfl
  have cursor : nextURL ≠ HF_BASE_ENDPOINT := by decide
  apply Served.page (if_pos (by rw [request, if_pos rfl])) named cursor
  exact .only (if_neg cursor)

def gguf : Query where
  query := "gguf"
  author := []
  filter := "gguf,conversational"
  limit := 10

theorem empty_page_completes : Drained (twoPages [1, 2] []) gguf HF_BASE_ENDPOINT [1, 2] :=
  (pages_complete_iff (twoPages_served [1, 2] [])).mpr (by decide)

theorem last_page_lost :
    Served (twoPages [1, 2] [3]) (request gguf HF_BASE_ENDPOINT) [[1, 2], [3]] ∧
      Drained (twoPages [1, 2] [3]) gguf HF_BASE_ENDPOINT [1, 2] ∧
      ¬ Drained (twoPages [1, 2] [3]) gguf HF_BASE_ENDPOINT [1, 2, 3] := by
  have served : Served (twoPages [1, 2] [3]) (request gguf HF_BASE_ENDPOINT) [[1, 2], [3]] := twoPages_served _ _
  refine ⟨served, (drained_iff_shown served rfl).mpr rfl, ?_⟩
  intro h
  have := (drained_iff_shown served rfl).mp h
  revert this
  decide

end

end Aigentik.SearchPages
