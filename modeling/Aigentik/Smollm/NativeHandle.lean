import Aigentik.Effects.Pool
import Aigentik.Platform

namespace Aigentik.NativeHandle

open Strings Effects

/-- The parameters of `load`; the floats are given as fractions. -/
structure InferenceParams where
  minP : ℚ := 1 / 10
  temperature : ℚ := 8 / 10
  storeChats : Bool := true
  contextSize : Option ℤ := none
  chatTemplate : Option Str := none
  numThreads : ℤ := 4
  useMmap : Bool := true
  useMlock : Bool := false
  deriving DecidableEq

namespace DefaultInferenceParams

def contextSize : ℤ := 1024

def chatTemplate : Str :=
  "\x7b% for message in messages %\x7d\x7b% if loop.first and messages[0]['role'] != 'system' %\x7d" ++
  "\x7b\x7b '<|im_start|>system You are a helpful AI assistant named SmolLM, trained by Hugging Face<|im_end|> ' \x7d\x7d" ++
  "\x7b% endif %\x7d\x7b\x7b'<|im_start|>' + message['role'] + ' ' + message['content'] + '<|im_end|>' + ' '\x7d\x7d" ++
  "\x7b% endfor %\x7d\x7b% if add_generation_prompt %\x7d\x7b\x7b '<|im_start|>assistant ' \x7d\x7d\x7b% endif %\x7d"

end DefaultInferenceParams

/-- What the `GGUFReader` finds in a model file. -/
structure Gguf where
  contextSize : Option ℤ
  chatTemplate : Option Str
  deriving DecidableEq

/-- The arguments of the native `loadModel`. -/
structure ModelArgs where
  modelPath : Str
  params : InferenceParams
  contextSize : ℤ
  chatTemplate : Str
  deriving DecidableEq

/-- The accesses to the file, to `nativePtr` and to the native library. A handle is the number of
the model that it points to, or zero. -/
inductive Op
  | readGguf (modelPath : Str)
  | loadModel (args : ModelArgs)
  | isLoaded
  | nativePtr
  | setNativePtr (handle : ℕ)
  | close (handle : ℕ)
  deriving DecidableEq

abbrev sig : Sig where
  Op := Op
  Resp
    | .readGguf _ => Except Throwable Gguf
    | .loadModel _ => Except Throwable ℕ
    | .isLoaded => Bool
    | .nativePtr => ℕ
    | .setNativePtr _ | .close _ => Unit

abbrev Native (α : Type) := Prog sig Throwable α

abbrev perform (op : Op) : Native (sig.Resp op) := .call op .ret

def load (modelPath : Str) (params : InferenceParams) : Native Unit := do
  let gguf ← Prog.ofExcept (← perform (.readGguf modelPath))
  let modelContextSize := gguf.contextSize.getD DefaultInferenceParams.contextSize
  let modelChatTemplate := gguf.chatTemplate.getD DefaultInferenceParams.chatTemplate
  let handle ← Prog.ofExcept (← perform (.loadModel ⟨modelPath, params,
    params.contextSize.getD modelContextSize, params.chatTemplate.getD modelChatTemplate⟩))
  perform (.setNativePtr handle)

/-- `nativePtr` is read twice. -/
def close : Native Unit := do
  if ← perform .isLoaded then
    perform (.close (← perform .nativePtr))
    perform (.setNativePtr 0)
  else return ()

inductive Input
  | load (modelPath : Str) (params : InferenceParams)
  | close

def entry : Input → Native Unit
  | .load modelPath params => load modelPath params
  | .close => close

/-- The field. The rest records the handles that `loadModel` has returned, those of them that a
thread has still to store, the calls of the native `close`, and the threads that have found a model
to close. -/
structure Shared where
  ptr : ℕ
  returned : List ℕ
  storing : List (ℕ × ℕ)
  closed : List ℕ
  closing : List ℕ

def Shared.init : Shared := ⟨0, [], [], [], []⟩

namespace Shared

variable (s : Shared)

/-- The new model has a number of its own. -/
def create (thread : ℕ) : Shared :=
  { s with
    returned := s.returned ++ [s.returned.length + 1]
    storing := (thread, s.returned.length + 1) :: s.storing }

def store (thread handle : ℕ) : Shared :=
  { s with ptr := handle, storing := s.storing.erase (thread, handle), closing := s.closing.erase thread }

/-- `delete` of a null pointer does nothing. -/
def delete (handle : ℕ) : Shared := if handle = 0 then s else { s with closed := s.closed ++ [handle] }

def seek (thread : ℕ) : Shared := if s.ptr = 0 then s else { s with closing := thread :: s.closing }

/-- A native model that takes memory. -/
def Live (handle : ℕ) : Prop := handle ∈ s.returned ∧ handle ∉ s.closed

instance (handle : ℕ) : Decidable (s.Live handle) := inferInstanceAs (Decidable (_ ∧ _))

end Shared

def act (thread : ℕ) : (op : Op) → sig.Resp op → Shared → Option (sig.Resp op × Shared)
  | .readGguf _, offer, s => some (offer, s)
  | .loadModel _, .error e, s => some (.error e, s)
  | .loadModel _, .ok _, s => some (.ok (s.returned.length + 1), s.create thread)
  | .isLoaded, _, s => some (decide (s.ptr ≠ 0), s.seek thread)
  | .nativePtr, _, s => some (s.ptr, s)
  | .setNativePtr handle, _, s => some ((), s.store thread handle)
  | .close handle, _, s => some ((), s.delete handle)

/-- Any number of calls of `load` and `close` on one instance. -/
def machine : Machine sig Throwable Shared Input where
  act := act
  entry := entry
  spawned _ := none

abbrev Configuration := Config sig Throwable Shared

/-- No handle is closed twice, at most one is live, and the one that is live is stored or about to
be stored. -/
structure Linear (s : Shared) : Prop where
  once : s.closed.Nodup
  single : ∀ h h', s.Live h → s.Live h' → h = h'
  kept : ∀ h, s.Live h → h = s.ptr ∨ ∃ thread, (thread, h) ∈ s.storing

/-- `loadModel` returns a handle only when all earlier ones have been closed, and while a `close` is
going on, no other finds a model and no handle is stored. -/
def apart (s : Shared) : Op → Bool
  | .loadModel _ => s.returned.all fun handle ↦ handle ∈ s.closed
  | .isLoaded => s.ptr = 0 || s.closing.isEmpty
  | .setNativePtr handle => handle = 0 || s.closing.isEmpty
  | _ => true

def closesApart : Guard sig Shared Input where
  start _ _ := True
  call s _ op := apart s op

/-! What a thread knows -/

/-- Where a thread is: it has to store a handle; or it closes a model, whose handle it has still
to read, to delete, or to forget. -/
inductive Stage
  | idle
  | storing (handle : ℕ)
  | seeking
  | deleting (handle : ℕ)
  | deleted

def disc : Discipline sig Stage where
  allow
    | l, .readGguf _ | l, .loadModel _ | l, .isLoaded => l = .idle
    | l, .nativePtr => l = .seeking
    | l, .close handle => l = .deleting handle
    | l, .setNativePtr handle => l = .storing handle ∨ l = .deleted ∧ handle = 0
  may _ _ _ := True
  next
    | _, .loadModel _, .ok handle => .storing handle
    | _, .isLoaded, loaded => if loaded then .seeking else .idle
    | _, .nativePtr, handle => .deleting handle
    | _, .close _, _ => .deleted
    | _, .setNativePtr _, _ => .idle
    | l, _, _ => l

def Known (s : Shared) (thread : ℕ) : Stage → Prop
  | .idle => True
  | .storing handle => (thread, handle) ∈ s.storing
  | .seeking => thread ∈ s.closing ∧ s.Live s.ptr
  | .deleting handle => thread ∈ s.closing ∧ s.Live handle ∧ s.ptr = handle
  | .deleted => thread ∈ s.closing ∧ ¬s.Live s.ptr

structure Inv (s : Shared) (ls : List Stage) : Prop where
  linear : Linear s
  known : ∀ i l, ls[i]? = some l → Known s i l
  returned : ∀ h ∈ s.returned, 0 < h ∧ h ≤ s.returned.length
  closed : ∀ h ∈ s.closed, h ∈ s.returned
  storing : ∀ x ∈ s.storing, s.Live x.2 ∧ x.2 ≠ s.ptr
  one_storing : s.storing.length ≤ 1
  one_closing : s.closing.length ≤ 1
  ptr : s.ptr = 0 ∨ s.ptr ∈ s.returned
  stored : s.closing = [] → s.ptr = 0 ∨ s.Live s.ptr

variable {s s' : Shared} {ls : List Stage} {i : ℕ} {l l' : Stage}

theorem load_wp (modelPath : Str) (params : InferenceParams) :
    (load modelPath params).wp disc (fun _ _ ↦ True) .idle := by
  refine ⟨rfl, fun gguf _ ↦ ?_⟩
  cases gguf with
  | error e => trivial
  | ok gguf =>
    refine ⟨rfl, fun handle _ ↦ ?_⟩
    cases handle with
    | error e => trivial
    | ok handle => exact ⟨.inl rfl, fun _ _ ↦ trivial⟩

theorem close_wp : close.wp disc (fun _ _ ↦ True) .idle := by
  refine ⟨rfl, fun loaded _ ↦ ?_⟩
  cases loaded with
  | false => trivial
  | true => exact ⟨rfl, fun handle _ ↦ ⟨rfl, fun _ _ ↦ ⟨.inr ⟨rfl, rfl⟩, fun _ _ ↦ trivial⟩⟩⟩

theorem entry_wp (input : Input) : (entry input).wp disc (fun _ _ ↦ True) .idle := by
  cases input with
  | load modelPath params => exact load_wp modelPath params
  | close => exact close_wp

theorem known_step (hother : ∀ j l, j ≠ i → ls[j]? = some l → Known s' j l) (hown : Known s' i l') :
    ∀ j l, (ls.set i l' ++ [])[j]? = some l → Known s' j l := by
  intro j l hl
  rcases getElem?_step hl with ⟨rfl, rfl⟩ | ⟨hne, hl⟩ | ⟨-, hl⟩
  · exact hown
  · exact hother j l hne hl
  · cases hl

theorem eq_singleton_of_one {α : Type} {as : List α} (h : as.length ≤ 1) {a : α} (ha : a ∈ as) : as = [a] := by
  rcases as with _ | ⟨b, _ | ⟨c, as⟩⟩
  · cases ha
  · rw [List.mem_singleton.mp ha]
  · simp at h

theorem eq_of_one {α : Type} {as : List α} (h : as.length ≤ 1) {a b : α} (ha : a ∈ as) (hb : b ∈ as) : a = b := by
  rw [eq_singleton_of_one h hb] at ha
  exact List.mem_singleton.mp ha

/-- While one thread closes a model, no other does. -/
theorem Inv.sole_closing (h : Inv s ls) (hi : i ∈ s.closing) {j : ℕ} (hj : j ≠ i) : j ∉ s.closing :=
  fun hmem ↦ hj (eq_of_one h.one_closing hmem hi)

/-- A thread that does not close a model knows no more than the handle it has to store. -/
theorem Known.storing_of_not_closing (h : Known s i l) (hi : i ∉ s.closing) :
    l = .idle ∨ ∃ handle, l = .storing handle ∧ (i, handle) ∈ s.storing := by
  cases l with
  | idle => exact .inl rfl
  | storing handle => exact .inr ⟨handle, rfl, h⟩
  | seeking => exact absurd h.1 hi
  | deleting handle => exact absurd h.1 hi
  | deleted => exact absurd h.1 hi

/-- A step that changes nothing but what its thread knows. -/
theorem Inv.same (h : Inv s ls) (hown : Known s i l') : Inv s (ls.set i l' ++ []) :=
  { h with known := known_step (fun j l _ hl ↦ h.known j l hl) hown }

theorem Inv.create (h : Inv s ls) (hall : ∀ handle ∈ s.returned, handle ∈ s.closed) :
    Inv (s.create i) (ls.set i (.storing (s.returned.length + 1)) ++ []) := by
  have hnone (handle : ℕ) : ¬s.Live handle := fun hlive ↦ hlive.2 (hall handle hlive.1)
  have hstoring : s.storing = [] :=
    List.eq_nil_iff_forall_not_mem.mpr fun x hx ↦ hnone x.2 (h.storing x hx).1
  have hfresh : s.returned.length + 1 ∉ s.returned := fun hmem ↦ absurd (h.returned _ hmem).2 (Nat.not_succ_le_self _)
  have hlive : (s.create i).Live (s.returned.length + 1) :=
    ⟨List.mem_append_right _ (List.mem_singleton_self _), fun hmem ↦ hfresh (h.closed _ hmem)⟩
  have honly (handle : ℕ) (hl : (s.create i).Live handle) : handle = s.returned.length + 1 := by
    rcases List.mem_append.mp hl.1 with hmem | hmem
    · exact absurd ⟨hmem, hl.2⟩ (hnone handle)
    · exact List.mem_singleton.mp hmem
  have hptr : s.ptr ≠ s.returned.length + 1 := by
    rcases h.ptr with hzero | hmem
    · rw [hzero]
      exact (Nat.succ_ne_zero _).symm
    · exact fun heq ↦ hfresh (heq ▸ hmem)
  refine ⟨⟨h.linear.once, fun x y hx hy ↦ (honly x hx).trans (honly y hy).symm, fun x hx ↦ .inr ⟨i, ?_⟩⟩,
    known_step (fun j l hj hl ↦ ?_) List.mem_cons_self, fun x hx ↦ ?_,
    fun x hx ↦ List.mem_append_left _ (h.closed x hx), fun x hx ↦ ?_, ?_, h.one_closing,
    h.ptr.imp_right (List.mem_append_left _), fun hclosing ↦ ?_⟩
  · rw [honly x hx]
    exact List.mem_cons_self
  · have hk : Known s j l := h.known j l hl
    cases l with
    | idle => trivial
    | storing handle => exact List.mem_cons_of_mem _ hk
    | seeking => exact absurd hk.2 (hnone _)
    | deleting handle => exact absurd hk.2.1 (hnone _)
    | deleted => exact ⟨hk.1, fun hlive ↦ hptr (honly _ hlive)⟩
  · rw [Shared.create, List.length_append, List.length_singleton]
    rcases List.mem_append.mp hx with hx | hx
    · exact ⟨(h.returned x hx).1, Nat.le_succ_of_le (h.returned x hx).2⟩
    · rw [List.mem_singleton.mp hx]
      exact ⟨Nat.succ_pos _, Nat.le_refl _⟩
  · rw [Shared.create, hstoring] at hx
    rw [List.mem_singleton.mp hx]
    exact ⟨hlive, hptr.symm⟩
  · rw [Shared.create, hstoring]
    exact Nat.le_refl _
  · exact .inl ((h.stored hclosing).resolve_right (hnone _))

theorem Inv.seek (h : Inv s ls) (hptr : s.ptr ≠ 0) (hclosing : s.closing = []) :
    Inv (s.seek i) (ls.set i .seeking ++ []) := by
  have hseek : s.seek i = { s with closing := i :: s.closing } := if_neg hptr
  rw [hseek]
  refine ⟨⟨h.linear.once, h.linear.single, h.linear.kept⟩, known_step (fun j l hj hl ↦ ?_)
    ⟨List.mem_cons_self, ?_⟩, h.returned, h.closed, h.storing,
    h.one_storing, ?_, h.ptr, fun hnil ↦ by cases hnil⟩
  · have hk : Known s j l := h.known j l hl
    rcases hk.storing_of_not_closing (by simp [hclosing]) with rfl | ⟨handle, rfl, hmem⟩
    · trivial
    · exact hmem
  · exact (h.stored hclosing).resolve_left hptr
  · rw [hclosing]
    exact Nat.le_refl _

/-- The model is closed: it was the one that was live. -/
theorem Inv.delete (h : Inv s ls) {handle : ℕ} (hk : Known s i (.deleting handle)) :
    Inv (s.delete handle) (ls.set i .deleted ++ []) := by
  obtain ⟨hmem, hlive, hptr⟩ := hk
  have hdelete : s.delete handle = { s with closed := s.closed ++ [handle] } :=
    if_neg (Nat.pos_iff_ne_zero.mp (h.returned handle hlive.1).1)
  rw [hdelete]
  have hbefore {x : ℕ} (hx : Shared.Live { s with closed := s.closed ++ [handle] } x) : s.Live x :=
    ⟨hx.1, fun hclosed ↦ hx.2 (List.mem_append_left _ hclosed)⟩
  have hgone : ¬Shared.Live { s with closed := s.closed ++ [handle] } handle :=
    fun hl ↦ hl.2 (List.mem_append_right _ (List.mem_singleton_self _))
  refine ⟨⟨?_, fun x y hx hy ↦ h.linear.single x y (hbefore hx) (hbefore hy), fun x hx ↦ h.linear.kept x (hbefore hx)⟩,
    known_step (fun j l hj hl ↦ ?_) ⟨hmem, ?_⟩, h.returned, fun x hx ↦ ?_, fun x hx ↦ ?_, h.one_storing,
    h.one_closing, h.ptr, fun hnil ↦ ?_⟩
  · refine List.nodup_append.mpr ⟨h.linear.once, by simp, fun x hx y hy ↦ ?_⟩
    rw [List.mem_singleton.mp hy]
    exact fun heq ↦ hlive.2 (heq ▸ hx)
  · have hother : Known s j l := h.known j l hl
    rcases hother.storing_of_not_closing (h.sole_closing hmem hj) with rfl | ⟨x, rfl, hx⟩
    · trivial
    · exact hx
  · change ¬Shared.Live _ s.ptr
    rw [hptr]
    exact hgone
  · rcases List.mem_append.mp hx with hx | hx
    · exact h.closed x hx
    · rw [List.mem_singleton.mp hx]
      exact hlive.1
  · obtain ⟨hl, hne⟩ := h.storing x hx
    refine ⟨⟨hl.1, fun hclosed ↦ ?_⟩, hne⟩
    rcases List.mem_append.mp hclosed with hclosed | hclosed
    · exact hl.2 hclosed
    · exact hne ((List.mem_singleton.mp hclosed).trans hptr.symm)
  · have hnil : s.closing = [] := hnil
    rw [hnil] at hmem
    cases hmem

theorem Inv.forget (h : Inv s ls) (hk : Known s i .deleted) : Inv (s.store i 0) (ls.set i .idle ++ []) := by
  obtain ⟨hmem, hgone⟩ := hk
  have hstoring : s.storing.erase (i, 0) = s.storing :=
    List.erase_of_not_mem fun hx ↦ absurd (h.returned 0 (h.storing _ hx).1.1).1 (Nat.lt_irrefl 0)
  have hstore : s.store i 0 = { s with ptr := 0, closing := s.closing.erase i } := by rw [Shared.store, hstoring]
  rw [hstore]
  refine ⟨⟨h.linear.once, h.linear.single, fun x hx ↦ ?_⟩, known_step (fun j l hj hl ↦ ?_) trivial, h.returned,
      h.closed, fun x hx ↦ ⟨(h.storing x hx).1, ?_⟩, h.one_storing, ?_, .inl rfl, fun _ ↦ .inl rfl⟩
  · rcases h.linear.kept x hx with rfl | hstored
    · exact absurd hx hgone
    · exact .inr hstored
  · have hother : Known s j l := h.known j l hl
    rcases hother.storing_of_not_closing (h.sole_closing hmem hj) with rfl | ⟨x, rfl, hx⟩
    · trivial
    · exact hx
  · exact Nat.pos_iff_ne_zero.mp (h.returned _ (h.storing x hx).1.1).1
  · exact (List.length_erase_le).trans h.one_closing

theorem Inv.store (h : Inv s ls) {handle : ℕ} (hk : Known s i (.storing handle)) (hclosing : s.closing = []) :
    Inv (s.store i handle) (ls.set i .idle ++ []) := by
  have hmem : (i, handle) ∈ s.storing := hk
  obtain ⟨hlive, hne⟩ := h.storing _ hmem
  have hstoring : s.storing.erase (i, handle) = [] := by
    rw [eq_singleton_of_one h.one_storing hmem, List.erase_cons_head]
  have hstore : s.store i handle = { s with ptr := handle, storing := [], closing := [] } := by
    rw [Shared.store, hstoring, hclosing, List.erase_nil]
  rw [hstore]
  refine ⟨⟨h.linear.once, h.linear.single, fun x hx ↦ .inl (h.linear.single x handle hx hlive)⟩,
    known_step (fun j l hj hl ↦ ?_) trivial, h.returned, h.closed, fun x hx ↦ (by cases hx), Nat.zero_le _,
    Nat.zero_le _, .inr hlive.1, fun _ ↦ .inr hlive⟩
  have hother : Known s j l := h.known j l hl
  rcases hother.storing_of_not_closing (by simp [hclosing]) with rfl | ⟨x, rfl, hx⟩
  · trivial
  · exact absurd (congrArg Prod.fst (eq_of_one h.one_storing hx hmem)) hj

theorem Inv.call {op : Op} {offer r : sig.Resp op} (h : Inv s ls) (hi : ls[i]? = some l)
    (hallow : disc.allow l op) (hG : apart s op = true) (hact : act i op offer s = some (r, s')) :
    Inv s' (ls.set i (disc.next l op r) ++ []) := by
  have hk : Known s i l := h.known i l hi
  cases op with
  | readGguf modelPath =>
    cases hact
    exact h.same hk
  | loadModel args =>
    cases offer with
    | error e =>
      cases hact
      exact h.same hk
    | ok _ =>
      cases hact
      exact h.create (by simpa [apart] using hG)
  | isLoaded =>
    cases hact
    by_cases hptr : s.ptr = 0
    · have hseek : s.seek i = s := if_pos hptr
      rw [hseek]
      refine h.same ?_
      simp [disc, hptr, Known]
    · have hclosing : s.closing = [] := by simpa [apart, hptr] using hG
      simpa [disc, hptr] using h.seek hptr hclosing
  | nativePtr =>
    cases hact
    have hseeking : l = .seeking := hallow
    subst hseeking
    exact h.same ⟨hk.1, hk.2, rfl⟩
  | setNativePtr handle =>
    cases hact
    rcases hallow with rfl | ⟨rfl, rfl⟩
    · have hne : handle ≠ 0 := Nat.pos_iff_ne_zero.mp (h.returned _ (h.storing _ hk).1.1).1
      have hclosing : s.closing = [] := by simpa [apart, hne] using hG
      exact h.store hk hclosing
    · exact h.forget hk
  | close handle =>
    cases hact
    have hdeleting : l = .deleting handle := hallow
    subst hdeleting
    exact h.delete hk

def outline : Outline machine closesApart Stage where
  disc := disc
  final _ := True
  entryLocal _ := .idle
  spawnLocal _ := .idle
  inv := Inv
  entry_wp _ input _ := entry_wp input
  spawn_wp s i op p _ hp := by cases hp
  inv_start s ls input _ h := by
    refine { h with known := fun i l hl ↦ ?_ }
    rw [List.getElem?_append] at hl
    split at hl
    · exact h.known i l hl
    · obtain rfl := List.mem_singleton.mp (List.mem_of_getElem? hl)
      trivial
  inv_call s ls i l op offer r s' hi hallow hG hact h := ⟨trivial, h.call hi hallow hG hact⟩

def works : (op : Op) → sig.Resp op
  | .readGguf _ => (.ok ⟨none, none⟩ : Except Throwable Gguf)
  | .loadModel _ => (.ok 0 : Except Throwable ℕ)
  | .isLoaded => true
  | .nativePtr => (0 : ℕ)
  | .setNativePtr _ | .close _ => ()

abbrev steps (thread times : ℕ) : List (Label sig Input) := List.replicate times (.step thread works)

/-- A chat's model is loaded and unloaded, and then that of another chat is loaded. -/
def closedBetween : List (Label sig Input) :=
  [.start (.load "a.gguf".toList {}), .start .close, .start (.load "b.gguf".toList {})] ++ steps 0 3 ++ steps 1 4 ++ steps 2 3

/-- The chat is switched: the model of the second is loaded over that of the first. -/
def switched : List (Label sig Input) :=
  [.start (.load "a.gguf".toList {}), .start (.load "b.gguf".toList {})] ++ steps 0 3 ++ steps 1 3

end Aigentik.NativeHandle
