import Aigentik.Email.GmailApiClient

namespace Aigentik.BodyExtraction

open Strings GmailApiClient

/-- A part of a message: its type, the text that the data of its body decodes to, and its parts. -/
inductive Part
  | mk (mimeType data : Option Str) (parts : List Part)

namespace Part

def mimeType : Part → Option Str
  | .mk mimeType _ _ => mimeType

def data : Part → Option Str
  | .mk _ data _ => data

def dataOf (type : Str) (part : Part) : Option Str := if part.mimeType = some type then part.data else none

def isMultipart (part : Part) : Bool := part.mimeType.any fun pType ↦ startsWith pType "multipart/"

end Part

def plainText (text : Str) : Str := text.take 4000

variable (fromHtml : Str → Option Str)

/-- `fromHtml` is `Html.fromHtml(_).toString()`, with `none` for what it throws. -/
def htmlText (data : Str) : Str :=
  let html := data.take 16000
  match fromHtml html with
  | some text => text.take 4000
  | none => (tagRegex.replaceAll [] html).take 4000

mutual

def extractBodyRecursive : Part → ℕ → Str
  | .mk mimeType data parts, depth =>
    if depth > 10 then []
    else match (Part.mk mimeType data parts).dataOf "text/plain" with
      | some text => plainText text
      | none => (firstPass parts depth <|> secondPass parts depth).getD []

/-- What the search for a plain text among the parts returns, if it does. -/
def firstPass : List Part → ℕ → Option Str
  | [], _ => none
  | part :: parts, depth =>
    match part.dataOf "text/plain" with
    | some text => some (plainText text)
    | none =>
      if part.isMultipart then
        let result := extractBodyRecursive part (depth + 1)
        if result ≠ [] then some result else firstPass parts depth
      else firstPass parts depth

/-- What the search for HTML among the parts returns, if it does. -/
def secondPass : List Part → ℕ → Option Str
  | [], _ => none
  | part :: parts, depth =>
    match part.dataOf "text/html" with
    | some html => some (htmlText fromHtml html)
    | none =>
      if part.isMultipart then
        let result := extractBodyRecursive part (depth + 1)
        if result ≠ [] then some result else secondPass parts depth
      else secondPass parts depth

end

def extractBody (payload : Part) : Str := extractBodyRecursive fromHtml payload 0

/-! The body that the message has -/

mutual

/-- The data of the parts of a type, in document order, to depth 10. -/
def Part.dataIn (type : Str) : Part → ℕ → List Str
  | .mk mimeType data parts, depth =>
    if depth > 10 then []
    else ((Part.mk mimeType data parts).dataOf type).toList ++ dataInAll type parts (depth + 1)

def dataInAll (type : Str) : List Part → ℕ → List Str
  | [], _ => []
  | part :: parts, depth => part.dataIn type depth ++ dataInAll type parts depth

end

inductive Leaf
  | plain (data : Str)
  | html (data : Str)

def Leaf.text : Leaf → Str
  | .plain data => plainText data
  | .html data => htmlText fromHtml data

/-- The first plain text, or else the first HTML. -/
def Part.leaf (payload : Part) : Option Leaf :=
  ((payload.dataIn "text/plain" 0).head?.map .plain) <|> (payload.dataIn "text/html" 0).head?.map .html

def body (payload : Part) : Str := (payload.leaf.map (Leaf.text fromHtml)).getD []

/-! The order of the search -/

def Part.isPlain (part : Part) : Bool := (part.dataOf "text/plain").isSome

def firstHtml (parts : List Part) : Option Str := parts.findSome? (Part.dataOf "text/html")

mutual

/-- The leaves in the order in which the search comes to them: only through multiparts, to depth 11,
and to the HTML among the parts after everything else. -/
def Part.searched : Part → ℕ → List Leaf
  | .mk mimeType data parts, depth =>
    if depth > 10 then []
    else match (Part.mk mimeType data parts).dataOf "text/plain" with
      | some text => [.plain text]
      | none =>
        searchedAll parts depth ++ if parts.any Part.isPlain then [] else ((firstHtml parts).map .html).toList

/-- A plain text among the parts ends the search there. -/
def searchedAll : List Part → ℕ → List Leaf
  | [], _ => []
  | part :: parts, depth =>
    match part.dataOf "text/plain" with
    | some text => [.plain text]
    | none => (if part.isMultipart then part.searched (depth + 1) else []) ++ searchedAll parts depth

end

def firstText (texts : List Str) : Str := (texts.find? (· ≠ [])).getD []

/-- The text comes before all others that are not empty. -/
def Foremost (text : Str) (texts : List Str) : Prop :=
  text = [] ∧ (∀ t ∈ texts, t = []) ∨
    text ≠ [] ∧ ∃ before after, texts = before ++ text :: after ∧ ∀ t ∈ before, t = []

def textsOf (leaves : List Leaf) : List Str := leaves.map (Leaf.text fromHtml)

variable {fromHtml} {text : Str} {texts texts' : List Str} {part : Part} {parts : List Part} {depth : ℕ}

theorem textsOf_nil : textsOf fromHtml [] = [] := rfl

theorem textsOf_append {leaves leaves' : List Leaf} :
    textsOf fromHtml (leaves ++ leaves') = textsOf fromHtml leaves ++ textsOf fromHtml leaves' := List.map_append

theorem find_eq_none_iff : texts.find? (· ≠ []) = none ↔ ∀ t ∈ texts, t = [] := by simp

theorem firstText_singleton : firstText [text] = text := by
  cases text <;> rfl

theorem find_of_firstText_ne (h : firstText texts ≠ []) : texts.find? (· ≠ []) = some (firstText texts) := by
  rw [firstText] at h ⊢
  cases hfind : texts.find? (· ≠ []) with
  | none => exact absurd (by rw [hfind]; rfl) h
  | some t => rfl

theorem find_of_firstText_eq (h : firstText texts = []) : texts.find? (· ≠ []) = none := by
  rw [firstText] at h
  cases hfind : texts.find? (· ≠ []) with
  | none => rfl
  | some t =>
    rw [hfind] at h
    have ht : t ≠ [] := by simpa using List.find?_some hfind
    exact absurd h ht

theorem firstText_append (h : texts.find? (· ≠ []) = none) : firstText (texts ++ texts') = firstText texts' := by
  rw [firstText, List.find?_append, h, Option.none_or, firstText]

theorem firstText_append_of_ne (h : firstText texts ≠ []) : firstText (texts ++ texts') = firstText texts := by
  rw [firstText, List.find?_append, find_of_firstText_ne h, Option.some_or, Option.getD_some]

theorem firstText_eq_iff : firstText texts = text ↔ Foremost text texts := by
  constructor
  · intro h
    subst h
    by_cases hempty : firstText texts = []
    · exact .inl ⟨hempty, find_eq_none_iff.mp (find_of_firstText_eq hempty)⟩
    · obtain ⟨-, before, after, heq, hbefore⟩ := List.find?_eq_some_iff_append.mp (find_of_firstText_ne hempty)
      exact .inr ⟨hempty, before, after, heq, fun t ht ↦ by simpa using hbefore t ht⟩
  · intro h
    rcases h with ⟨rfl, hempty⟩ | ⟨hne, before, after, rfl, hbefore⟩
    · rw [firstText, find_eq_none_iff.mpr hempty]
      rfl
    · rw [firstText_append (find_eq_none_iff.mpr hbefore), firstText, List.find?_cons_of_pos (by simpa using hne)]
      rfl

theorem secondPass_eq (h : firstPass fromHtml parts depth = none) :
    secondPass fromHtml parts depth = (firstHtml parts).map (htmlText fromHtml) := by
  induction parts with
  | nil => rfl
  | cons part parts ih =>
    rw [firstPass] at h
    rw [secondPass, firstHtml, List.findSome?_cons]
    split at h
    · cases h
    · cases part.dataOf "text/html" with
      | some html => rfl
      | none =>
        dsimp only at h ⊢
        split at h
        · rename_i hmultipart
          split at h
          · cases h
          · rename_i hresult
            rw [if_pos hmultipart, if_neg hresult]
            exact ih h
        · rename_i hmultipart
          rw [if_neg hmultipart]
          exact ih h

mutual

theorem extractBodyRecursive_eq : ∀ (part : Part) (depth : ℕ),
    extractBodyRecursive fromHtml part depth = firstText (textsOf fromHtml (part.searched depth))
  | .mk mimeType data parts, depth => by
    rw [extractBodyRecursive, Part.searched]
    split
    · rfl
    · cases (Part.mk mimeType data parts).dataOf "text/plain" with
      | some text => exact firstText_singleton.symm
      | none =>
        have hfirst := firstPass_eq parts depth
        dsimp only
        rw [textsOf_append]
        split
        · rename_i hplain
          rw [hfirst, if_pos hplain, textsOf_nil, List.append_nil]
          rfl
        · rename_i hplain
          rw [if_neg hplain] at hfirst
          cases hfind : (textsOf fromHtml (searchedAll parts depth)).find? (· ≠ []) with
          | some text => rw [hfirst, hfind, firstText, List.find?_append, hfind]; rfl
          | none =>
            rw [hfind] at hfirst
            rw [hfirst, secondPass_eq hfirst, firstText_append hfind]
            cases firstHtml parts with
            | none => rfl
            | some html => exact firstText_singleton.symm

theorem firstPass_eq : ∀ (parts : List Part) (depth : ℕ), firstPass fromHtml parts depth =
    if parts.any Part.isPlain then some (firstText (textsOf fromHtml (searchedAll parts depth)))
    else (textsOf fromHtml (searchedAll parts depth)).find? (· ≠ [])
  | [], depth => rfl
  | part :: parts, depth => by
    have hpart := extractBodyRecursive_eq part (depth + 1)
    have hparts := firstPass_eq parts depth
    rw [firstPass, searchedAll, List.any_cons, Part.isPlain]
    cases part.dataOf "text/plain" with
    | some text => exact congrArg some firstText_singleton.symm
    | none =>
      simp only [Option.isSome_none, Bool.false_or, textsOf_append]
      split
      · by_cases hresult : extractBodyRecursive fromHtml part (depth + 1) = []
        · rw [if_neg (not_not.mpr hresult), hparts]
          rw [hpart] at hresult
          rw [firstText_append (find_of_firstText_eq hresult), List.find?_append, find_of_firstText_eq hresult,
            Option.none_or]
        · rw [if_pos hresult]
          rw [hpart] at hresult ⊢
          rw [firstText_append_of_ne hresult, List.find?_append, find_of_firstText_ne hresult, Option.some_or]
          split <;> rfl
      · rw [hparts, textsOf_nil, List.nil_append]

end

/-- The body is extracted exactly if its text is the first one that the search comes to and that is
not empty. -/
theorem extractBody_eq_iff (fromHtml : Str → Option Str) (payload : Part) :
    extractBody fromHtml payload = body fromHtml payload ↔
      Foremost (body fromHtml payload) (textsOf fromHtml (payload.searched 0)) := by
  rw [extractBody, extractBodyRecursive_eq, firstText_eq_iff]

/-! A message that is HTML only -/

def htmlMail : Part := .mk (some "text/html".toList) (some "hi".toList) []

theorem html_mail_empty : body some htmlMail = "hi" ∧ extractBody some htmlMail = [] ∧
    extractBody some htmlMail ≠ body some htmlMail := by
  decide +kernel

/-- The HTML of an attached part comes before a plain text. -/
example : extractBody some (.mk (some "multipart/mixed".toList) none
    [.mk (some "multipart/related".toList) none [.mk (some "text/html".toList) (some "hi".toList) []],
      .mk (some "text/plain".toList) (some "ok".toList) []]) = "hi" := by
  decide +kernel

end Aigentik.BodyExtraction
