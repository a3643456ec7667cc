import Aigentik.Hub.SearchPages

namespace Aigentik.HFModelsAPI

open Strings HFModelSearch SearchPages

/-- A new search starts at the endpoint. -/
def getSearch : Str := HF_BASE_ENDPOINT

def pageSize : ℕ := 10

def ggufModelFilter : Str := "gguf,conversational"

structure LoadResult (α : Type) where
  data : List α
  prevKey : Option ℕ
  nextKey : Option ℕ

variable {α : Type} (server : Get → Response α) (query : Str)

def searchQuery : Query where
  query := query
  author := []
  filter := ggufModelFilter
  limit := pageSize

def load (key : Option ℕ) : LoadResult α :=
  let pageNumber := key.getD 1
  let result := (searchModels server (searchQuery query) getSearch).1
  ⟨result, none, if result.isEmpty then none else some (pageNumber + 1)⟩

/-- The key of the page closest to the anchor, if there are an anchor and such a page. -/
def getRefreshKey (closestPage : Option (LoadResult α)) : Option ℕ :=
  closestPage.bind fun page ↦ (page.prevKey.map (· + 1)).or (page.nextKey.map (· - 1))

/-- What is loaded from a key on, until there is no next key. -/
inductive Loads : Option ℕ → List (List α) → Prop
  | last {key : Option ℕ} : (load server query key).nextKey = none →
      Loads key [(load server query key).data]
  | next {key : Option ℕ} {k : ℕ} {loaded : List (List α)} : (load server query key).nextKey = some k →
      Loads (some k) loaded → Loads key ((load server query key).data :: loaded)

/-- The loads end, and each gives the page that is its turn. -/
def Advances (pages : List (List α)) : Prop :=
  ∃ loaded, Loads server query none loaded ∧ ∀ i (hi : i < loaded.length), loaded[i] = pages.getD i []

variable {server query} {q : Query}

/-- A refresh starts at the page on show. -/
theorem getRefreshKey_load {key : Option ℕ} (h : (load server query key).data ≠ []) :
    getRefreshKey (some (load server query key)) = some (key.getD 1) := by
  have hne : (searchModels server (searchQuery query) getSearch).1.isEmpty = false := by
    rw [List.isEmpty_eq_false_iff]
    exact h
  simp [getRefreshKey, load, hne]

/-- The key does not matter to the results. -/
theorem load_data (key : Option ℕ) :
    (load server query key).data = (searchModels server (searchQuery query) getSearch).1 := rfl

theorem load_nextKey (key : Option ℕ) :
    (load server query key).nextKey = none ↔ (searchModels server (searchQuery query) getSearch).1 = [] := by
  rw [load]
  simp

/-- All loads give the same page, so they end only if it is empty. -/
theorem Loads.empty {key : Option ℕ} {loaded : List (List α)} (h : Loads server query key loaded) :
    (searchModels server (searchQuery query) getSearch).1 = [] ∧ loaded = [[]] := by
  induction h with
  | last hnone =>
    have hnil := (load_nextKey _).mp hnone
    exact ⟨hnil, by rw [load_data, hnil]⟩
  | @next key _ _ hsome _ ih =>
    have hnone := (load_nextKey key).mpr ih.1
    rw [hsome] at hnone
    cases hnone

theorem first_empty {pages : List (List α)} (h : Served server (request q HF_BASE_ENDPOINT) pages)
    (hp : pages.head? = some []) : (searchModels server q HF_BASE_ENDPOINT).1 = [] := by
  cases h with
  | only hs => rw [searchModels_only hs]
  | last hs hf => rw [searchModels_last hs hf]
  | page hs hc => rw [searchModels_page hs hc]; exact Option.some.inj hp

theorem advances_iff {pages : List (List α)}
    (h : Served server (request (searchQuery query) HF_BASE_ENDPOINT) pages) :
    Advances server query pages ↔ pages.head? = some [] := by
  constructor
  · intro h'
    obtain ⟨loaded, hloads, inTurn⟩ := h'
    obtain ⟨-, rfl⟩ := hloads.empty
    have first := inTurn 0 (by simp)
    cases pages with
    | nil => exact (h.ne_nil rfl).elim
    | cons page pages => exact congrArg some first.symm
  · intro hp
    have hnil := first_empty h hp
    refine ⟨_, .last ((load_nextKey none).mpr hnil), ?_⟩
    intro i hi
    have hi : i = 0 := by simpa using hi
    subst hi
    rw [List.getElem_singleton, load_data, getSearch, hnil]
    cases pages with
    | nil => cases hp
    | cons page pages => exact (Option.some.inj hp).symm

theorem no_results_advance : Advances (twoPages [] []) "gguf" [[], []] :=
  (advances_iff (twoPages_served [] [])).mpr rfl

/-- The second load gives the first page again. -/
theorem first_page_again :
    Served (twoPages [1, 2] [3]) (request (searchQuery "gguf") HF_BASE_ENDPOINT) [[1, 2], [3]] ∧
      (load (twoPages [1, 2] [3]) "gguf" (some 2)).data = [1, 2] ∧
      ¬ Advances (twoPages [1, 2] [3]) "gguf" [[1, 2], [3]] := by
  have served : Served (twoPages [1, 2] [3]) (request (searchQuery "gguf") HF_BASE_ENDPOINT) [[1, 2], [3]] :=
    twoPages_served _ _
  refine ⟨served, ?_, ?_⟩
  · rw [load_data]
    decide
  · intro h
    obtain ⟨loaded, hloads, -⟩ := h
    have first := hloads.empty.1
    revert first
    decide

end Aigentik.HFModelsAPI
