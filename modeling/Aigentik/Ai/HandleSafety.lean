import Aigentik.Ai.SharedLoad

namespace Aigentik.HandleSafety

open Effects AgentLLMFacade OnDemandLoading SharedLoad

/-- What the holder of a ticket knows: that the model was ready, or that the load which it
has joined has returned. -/
def Counts (results : List (ℕ × Bool)) : Ticket → Prop
  | .asking => False
  | .ready => True
  | .joined d => (d, true) ∈ results

instance (results : List (ℕ × Bool)) (ticket : Ticket) : Decidable (Counts results ticket) := by
  cases ticket <;> unfold Counts <;> infer_instance

/-- A load that has returned is still published, or a generating caller, which has not
released the lock, knows that the model is ready. -/
def InUse (s : Shared) : Prop :=
  (∃ d ∈ s.loads.loadDeferred, (d, true) ∈ s.loads.results) ∨ ∃ t ∈ s.tickets, Counts s.loads.results t.2

def Generating (s : Shared) (thread : ℕ) : Prop := ∃ t ∈ s.tickets, t.1 = thread

instance (s : Shared) : Decidable (InUse s) := inferInstanceAs (Decidable (_ ∨ _))

instance (s : Shared) (thread : ℕ) : Decidable (Generating s thread) :=
  inferInstanceAs (Decidable (∃ _ ∈ _, _))

/-- No unload closes the handle while it is in use, and no generating caller finds the
model ready between the two writes of an unload. -/
def unused : Guard facadeSig Shared Call where
  start _ _ := True
  call s thread
    | .close => ¬InUse s
    | .stateIs .ready => Generating s thread → s.closing = false ∨ s.state ≠ .ready
    | _ => True

/-- What the place of a thread says of its tickets. -/
structure Holds (s : Shared) (thread : ℕ) (l : Local) : Prop where
  asked : l.asked = true → Generating s thread
  joined : l.asked = true → ∀ d, l.joined = some d → (thread, .joined d) ∈ s.tickets
  told : l.told = true → ∃ t ∈ s.tickets, t.1 = thread ∧ Counts s.loads.results t.2

/-- A thread that may be in a native call. -/
def MayRun (l : Local) : Prop :=
  l.native = true ∧ (l.told = true ∨ ∃ d, l.load = some (d, .returned))

structure Safe (s : Shared) (ls : List Local) : Prop where
  sole : Sole (fun l ↦ l.lock = true) s.lock ls
  inUse : InUse s → s.handle = true
  ready : s.state = .ready → s.closing = false → s.handle = true
  closing : s.closing = true → ∃ (i : ℕ) (l : Local), ls[i]? = some l ∧ l.lock = true ∧ l.closing = true
  holds : ∀ (i : ℕ) (l : Local), ls[i]? = some l → Holds s i l
  native : ∀ i ∈ s.native, ∃ l, ls[i]? = some l ∧ MayRun l

theorem Counts.mono {results results' : List (ℕ × Bool)} {ticket : Ticket} (h : Counts results ticket)
    (hsub : ∀ p ∈ results, p ∈ results') : Counts results' ticket := by
  cases ticket with
  | asking => exact h
  | ready => trivial
  | joined d => exact hsub _ h

/-- A load that has returned and goes on uses the model. -/
theorem inUse_of_returned {s : Shared} {ls : List Local} {i d : ℕ} {l : Local} (h : Inv s ls)
    (hi : ls[i]? = some l) (hl : l.load = some (d, .returned)) : InUse s := by
  have hknows := h.knows i l hi
  have hcurrent : s.loads.loadDeferred = some d := (hknows.current d _ hl).mpr rfl
  exact .inl ⟨d, hcurrent, hknows.result d _ true hl rfl⟩

theorem Safe.handle_of_native {s : Shared} {ls : List Local} (hinv : Inv s ls) (h : Safe s ls) {i : ℕ}
    (hi : i ∈ s.native) : s.handle = true := by
  obtain ⟨l, hl, -, hrun⟩ := h.native i hi
  refine h.inUse ?_
  rcases hrun with htold | ⟨d, hd⟩
  · obtain ⟨t, ht, -, hcounts⟩ := (h.holds i l hl).told htold
    exact .inr ⟨t, ht, hcounts⟩
  · exact inUse_of_returned hinv hl hd

theorem Safe.handle_of_ready {s : Shared} {ls : List Local} (h : Safe s ls) (hfree : s.lock = false)
    (hready : s.state = .ready) : s.handle = true := by
  refine h.ready hready ?_
  by_contra hclosing
  obtain ⟨i, l, hi, hl, -⟩ := h.closing (by simpa using hclosing)
  have hlocked := (h.sole i l hi hl).1
  rw [hfree] at hlocked
  cases hlocked

section Step

variable {s s' : Shared} {ls new : List Local} {i : ℕ} {l l' : Local}

theorem Holds.mono {j : ℕ} {x : Local} (h : Holds s j x)
    (htickets : ∀ t ∈ s.tickets, t.1 = j → t ∈ s'.tickets)
    (hresults : ∀ p ∈ s.loads.results, p ∈ s'.loads.results) : Holds s' j x := by
  refine ⟨fun hasked ↦ ?_, fun hasked d hd ↦ htickets _ (h.joined hasked d hd) rfl, fun htold ↦ ?_⟩
  · obtain ⟨t, ht, htj⟩ := h.asked hasked
    exact ⟨t, htickets t ht htj, htj⟩
  · obtain ⟨t, ht, htj, hcounts⟩ := h.told htold
    exact ⟨t, htickets t ht htj, htj, hcounts.mono hresults⟩

theorem holds_idle {j : ℕ} {x : Local} (hasked : x.asked = false) (htold : x.told = false) : Holds s j x := by
  constructor <;> simp [hasked, htold]

/-- An unload between its two writes is this thread's or another one's. -/
theorem closing_or (l : Local) (hc : s.closing = true) : (l.lock = true ∧ l.closing = true) ∨
    (s.closing = true ∧ ¬(l.lock = true ∧ l.closing = true)) := by
  by_cases hown : l.lock = true ∧ l.closing = true
  · exact .inl hown
  · exact .inr ⟨hc, hown⟩

theorem Safe.advance (h : Safe s ls) (hi : ls[i]? = some l)
    (hnew : ∀ x ∈ new, x.lock = false ∧ x.asked = false ∧ x.told = false)
    (hsole : Sole (fun l ↦ l.lock = true) s'.lock (ls.set i l'))
    (hinUse : InUse s' → s'.handle = true) (hready : s'.state = .ready → s'.closing = false → s'.handle = true)
    (hclosing : s'.closing = true → (l'.lock = true ∧ l'.closing = true) ∨
      (s.closing = true ∧ ¬(l.lock = true ∧ l.closing = true)))
    (htickets : ∀ t ∈ s.tickets, t.1 ≠ i → t ∈ s'.tickets)
    (hresults : ∀ p ∈ s.loads.results, p ∈ s'.loads.results) (hown : Holds s' i l')
    (hnative : ∀ j ∈ s'.native, (j = i ∧ MayRun l') ∨ (j ≠ i ∧ j ∈ s.native)) :
    Safe s' (ls.set i l' ++ new) := by
  have hstay {j : ℕ} {x : Local} (hj : ls[j]? = some x) (hne : j ≠ i) : (ls.set i l' ++ new)[j]? = some x := by
    refine getElem?_append_of_some ?_
    rwa [List.getElem?_set_ne (Ne.symm hne)]
  have hself : (ls.set i l' ++ new)[i]? = some l' := getElem?_append_of_some (getElem?_set_of_some hi)
  refine ⟨hsole.append fun x hx ↦ by simp [(hnew x hx).1], hinUse, hready, fun hc ↦ ?_, fun j x hj ↦ ?_,
    fun j hj ↦ ?_⟩
  · rcases hclosing hc with ⟨hlock, hcl⟩ | ⟨hc, hnot⟩
    · exact ⟨i, l', hself, hlock, hcl⟩
    · obtain ⟨j, x, hj, hlock, hcl⟩ := h.closing hc
      refine ⟨j, x, hstay hj ?_, hlock, hcl⟩
      intro heq
      subst heq
      rw [hi] at hj
      cases hj
      exact hnot ⟨hlock, hcl⟩
  · rcases getElem?_step hj with ⟨rfl, rfl⟩ | ⟨hne, hj⟩ | ⟨-, hx⟩
    · exact hown
    · exact (h.holds j x hj).mono (fun t ht htj ↦ htickets t ht (htj ▸ hne)) hresults
    · obtain ⟨-, hasked, htold⟩ := hnew x hx
      exact holds_idle hasked htold
  · rcases hnative j hj with ⟨rfl, hrun⟩ | ⟨hne, hj⟩
    · exact ⟨l', hself, hrun⟩
    · obtain ⟨x, hx, hrun⟩ := h.native j hj
      exact ⟨x, hstay hx hne, hrun⟩

theorem Safe.frame (h : Safe s ls) (hi : ls[i]? = some l)
    (hnew : ∀ x ∈ new, x.lock = false ∧ x.asked = false ∧ x.told = false)
    (hlock : l'.lock = l.lock) (hasked : l'.asked = l.asked) (hjoined : l'.joined = l.joined)
    (htold : l'.told = l.told) (hnative : l'.native = l.native) (hclosing : l'.closing = l.closing)
    (hload : ∀ d, l.load = some (d, .returned) → l'.load = some (d, .returned))
    (hslock : s'.lock = s.lock) (hhandle : s'.handle = s.handle) (hready : s'.state = .ready → s.state = .ready)
    (hsclosing : s'.closing = s.closing) (htickets : s'.tickets = s.tickets)
    (hresults : s'.loads.results = s.loads.results) (hdeferred : ∀ d ∈ s'.loads.loadDeferred,
      d ∈ s.loads.loadDeferred ∨ (d, true) ∉ s.loads.results) (hsnative : s'.native = s.native) :
    Safe s' (ls.set i l' ++ new) := by
  have hholds := h.holds i l hi
  refine h.advance hi hnew ?_ (fun hin ↦ ?_) (fun hr hc ↦ ?_) (fun hc ↦ ?_) ?_ ?_ ?_ fun j hj ↦ ?_
  · rw [hslock]
    exact h.sole.keep hi fun hl ↦ hlock ▸ hl
  · rw [hhandle]
    refine h.inUse ?_
    rcases hin with ⟨d, hd, hr⟩ | ⟨t, ht, hcounts⟩
    · rw [hresults] at hr
      exact .inl ⟨d, (hdeferred d hd).resolve_right (not_not.mpr hr), hr⟩
    · rw [htickets] at ht
      rw [hresults] at hcounts
      exact .inr ⟨t, ht, hcounts⟩
  · rw [hhandle]
    exact h.ready (hready hr) (hsclosing ▸ hc)
  · rw [hsclosing] at hc
    rw [hlock, hclosing]
    exact closing_or l hc
  · rw [htickets]
    exact fun _ ht _ ↦ ht
  · rw [hresults]
    exact fun _ hp ↦ hp
  · refine ⟨?_, ?_, ?_⟩
    · rw [hasked, Generating, htickets]
      exact hholds.asked
    · rw [hasked, hjoined, htickets]
      exact hholds.joined
    · rw [htold, htickets, hresults]
      exact hholds.told
  · rw [hsnative] at hj
    by_cases hji : j = i
    · obtain ⟨x, hx, hrun⟩ := h.native j hj
      rw [hji, hi] at hx
      cases hx
      refine .inl ⟨hji, hnative ▸ hrun.1, ?_⟩
      rw [htold]
      exact hrun.2.imp_right fun ⟨d, hd⟩ ↦ ⟨d, hload d hd⟩
    · exact .inr ⟨hji, hj⟩

/-- The native calls of the other threads go on, and that of this one if it may. -/
theorem Safe.native_of_mono (h : Safe s ls) (hi : ls[i]? = some l) (hrun : MayRun l → MayRun l') {j : ℕ}
    (hj : j ∈ s.native) : (j = i ∧ MayRun l') ∨ (j ≠ i ∧ j ∈ s.native) := by
  by_cases hji : j = i
  · obtain ⟨x, hx, hx'⟩ := h.native j hj
    rw [hji, hi] at hx
    cases hx
    exact .inl ⟨hji, hrun hx'⟩
  · exact .inr ⟨hji, hj⟩

theorem mem_told {thread : ℕ} {ticket : Ticket} {t : ℕ × Ticket} (ht : t ∈ s.tickets) :
    t ∈ (s.told thread ticket).tickets := by
  unfold Shared.told
  split
  · exact List.mem_cons_of_mem _ ht
  · exact ht

theorem told_self {thread : ℕ} {ticket : Ticket} (h : Generating s thread) :
    (thread, ticket) ∈ (s.told thread ticket).tickets := by
  have hex : ∃ t ∈ s.tickets, t.1 = thread := h
  rw [Shared.told, if_pos hex]
  exact List.mem_cons_self

/-- A new ticket is of use only if the model is. -/
theorem inUse_told {thread : ℕ} {ticket : Ticket} (h : InUse (s.told thread ticket)) :
    InUse s ∨ (Generating s thread ∧ Counts s.loads.results ticket) := by
  unfold Shared.told at h
  split at h
  · rename_i hgenerating
    rcases h with hin | ⟨t, ht, hcounts⟩
    · exact .inl (.inl hin)
    · rcases List.mem_cons.mp ht with rfl | ht
      · exact .inr ⟨hgenerating, hcounts⟩
      · exact .inl (.inr ⟨t, ht, hcounts⟩)
  · exact .inl h

theorem told_rest (s : Shared) (thread : ℕ) (ticket : Ticket) : (s.told thread ticket).handle = s.handle ∧
    (s.told thread ticket).lock = s.lock ∧ (s.told thread ticket).closing = s.closing ∧
    (s.told thread ticket).native = s.native := by
  unfold Shared.told
  split <;> exact ⟨rfl, rfl, rfl, rfl⟩

theorem Safe.told {ticket : Ticket} (h : Safe s ls) (hi : ls[i]? = some l)
    (hcounts : Generating s i → Counts s.loads.results ticket → s.handle = true)
    (hlock : l'.lock = l.lock) (hclosing : l'.closing = l.closing) (hrun : MayRun l → MayRun l')
    (hown : Holds (s.told i ticket) i l') : Safe (s.told i ticket) (ls.set i l' ++ []) := by
  obtain ⟨hhandle, hslock, hsclosing, hnative⟩ := told_rest s i ticket
  refine h.advance hi (by simp) ?_ (fun hin ↦ ?_) (fun hr hc ↦ ?_) (fun hc ↦ ?_) (fun t ht _ ↦ mem_told ht) ?_
    hown (fun j hj ↦ ?_)
  · rw [hslock]
    exact h.sole.keep hi fun hl ↦ hlock ▸ hl
  · rw [hhandle]
    rcases inUse_told hin with hin | ⟨hgenerating, hc⟩
    · exact h.inUse hin
    · exact hcounts hgenerating hc
  · rw [hhandle]
    exact h.ready (told_state s i ticket ▸ hr) (hsclosing ▸ hc)
  · rw [hsclosing] at hc
    rw [hlock, hclosing]
    exact closing_or l hc
  · rw [told_loads]
    exact fun _ hp ↦ hp
  · rw [hnative] at hj
    exact h.native_of_mono hi hrun hj

theorem Safe.request (h : Safe s ls) (hi : ls[i]? = some l) (hjoined : l.joined = none) :
    Safe { s with tickets := (i, .asking) :: s.tickets } (ls.set i { l with asked := true } ++ []) := by
  have hholds := h.holds i l hi
  refine h.advance hi (by simp) (h.sole.keep hi id) (fun hin ↦ h.inUse ?_) h.ready (fun hc ↦ ?_)
    (fun t ht _ ↦ List.mem_cons_of_mem _ ht) (fun _ hp ↦ hp) ⟨fun _ ↦ ?_, ?_, fun htold ↦ ?_⟩
    fun j hj ↦ h.native_of_mono hi id hj
  · rcases hin with hin | ⟨t, ht, hcounts⟩
    · exact .inl hin
    · rcases List.mem_cons.mp ht with rfl | ht
      · exact hcounts.elim
      · exact .inr ⟨t, ht, hcounts⟩
  · exact closing_or l hc
  · exact ⟨_, List.mem_cons_self, rfl⟩
  · intro _ d hd
    rw [hjoined] at hd
    cases hd
  · obtain ⟨t, ht, hti, hcounts⟩ := hholds.told htold
    exact ⟨t, List.mem_cons_of_mem _ ht, hti, hcounts⟩

theorem Safe.acquire (h : Safe s ls) (hi : ls[i]? = some l) (hfree : s.lock = false) :
    Safe { s with lock := true } (ls.set i { l with lock := true } ++ []) := by
  have hholds := h.holds i l hi
  have hsole := h.sole
  rw [hfree] at hsole
  refine h.advance hi (by simp) hsole.acquire h.inUse h.ready (fun hc ↦ ?_) (fun _ ht _ ↦ ht) (fun _ hp ↦ hp)
    ⟨hholds.asked, hholds.joined, hholds.told⟩ fun j hj ↦ h.native_of_mono hi id hj
  by_cases hown : l.closing = true
  · exact .inl ⟨rfl, hown⟩
  · exact .inr ⟨hc, fun hboth ↦ hown hboth.2⟩

theorem Safe.release (h : Safe s ls) (hi : ls[i]? = some l) (hlock : l.lock = true) (hnative : l.native = false)
    (hclosing : l.closing = false) :
    Safe { s with lock := false, tickets := s.tickets.filter fun t ↦ t.1 ≠ i }
      (ls.set i { l with lock := false, asked := false, told := false } ++ []) := by
  refine h.advance hi (by simp) (h.sole.release hi hlock (by simp)) (fun hin ↦ h.inUse ?_) h.ready (fun hc ↦ ?_)
    (fun t ht hti ↦ List.mem_filter.mpr ⟨ht, by simpa using hti⟩) (fun _ hp ↦ hp) (holds_idle rfl rfl)
    fun j hj ↦ h.native_of_mono hi (fun hrun ↦ ?_) hj
  · exact hin.imp_right fun ⟨t, ht, hcounts⟩ ↦ ⟨t, (List.mem_filter.mp ht).1, hcounts⟩
  · exact .inr ⟨hc, by simp [hclosing]⟩
  · rw [MayRun, hnative] at hrun
    cases hrun.1

theorem Safe.enter (h : Safe s ls) (hi : ls[i]? = some l)
    (hready : l.told = true ∨ ∃ d, l.load = some (d, .returned)) :
    Safe { s with native := i :: s.native } (ls.set i { l with native := true } ++ []) := by
  have hholds := h.holds i l hi
  refine h.advance hi (by simp) (h.sole.keep hi id) h.inUse h.ready (fun hc ↦ ?_) (fun _ ht _ ↦ ht) (fun _ hp ↦ hp)
    ⟨hholds.asked, hholds.joined, hholds.told⟩ fun j hj ↦ ?_
  · exact closing_or l hc
  · rcases List.mem_cons.mp hj with rfl | hj
    · exact .inl ⟨rfl, rfl, hready⟩
    · have hrun : MayRun l → MayRun { l with native := true } := fun _ ↦ ⟨rfl, hready⟩
      exact h.native_of_mono hi hrun hj

theorem Safe.leave (h : Safe s ls) (hi : ls[i]? = some l) :
    Safe { s with native := s.native.filter (· ≠ i) } (ls.set i { l with native := false } ++ []) := by
  have hholds := h.holds i l hi
  refine h.advance hi (by simp) (h.sole.keep hi id) h.inUse h.ready (fun hc ↦ ?_) (fun _ ht _ ↦ ht) (fun _ hp ↦ hp)
    ⟨hholds.asked, hholds.joined, hholds.told⟩ fun j hj ↦ ?_
  · exact closing_or l hc
  · obtain ⟨hj, hne⟩ := List.mem_filter.mp hj
    exact .inr ⟨by simpa using hne, hj⟩

theorem Safe.close (h : Safe s ls) (hi : ls[i]? = some l) (hlock : l.lock = true) (hunused : ¬InUse s) :
    Safe { s with handle := false, closing := true } (ls.set i { l with closing := true } ++ []) := by
  have hholds := h.holds i l hi
  exact h.advance hi (by simp) (h.sole.keep hi id) (fun hin ↦ absurd hin hunused) nofun
    (fun _ ↦ .inl ⟨hlock, rfl⟩) (fun _ ht _ ↦ ht) (fun _ hp ↦ hp) ⟨hholds.asked, hholds.joined, hholds.told⟩
    fun j hj ↦ h.native_of_mono hi id hj

/-- Only a load that returns opens the handle, and only its deferred comes into use. -/
theorem Safe.loadEnd {d : ℕ} (ended : LoadEnd) (h : Safe s ls) (hi : ls[i]? = some l)
    (hl : l.load = some (d, .inLoad)) (hloads : s'.loads = s.loads.ended d ended)
    (hhandle : s'.handle = true ∨ ((Stage.loadEnd ended).result ≠ some true ∧ s'.handle = s.handle))
    (hlock : s'.lock = s.lock) (hstate : s'.state = s.state) (hclosing : s'.closing = s.closing)
    (htickets : s'.tickets = s.tickets) (hnative : s'.native = s.native) :
    Safe s' (ls.set i { l with load := some (d, .loadEnd ended) } ++ []) := by
  have hholds := h.holds i l hi
  have hresults : ∀ p ∈ s.loads.results, p ∈ s'.loads.results := by
    rw [hloads]
    exact fun p hp ↦ mem_ended_results.mpr (.inr hp)
  have hrun : MayRun l → MayRun { l with load := some (d, .loadEnd ended) } := by
    intro h'
    obtain ⟨hin, htold | ⟨e, he⟩⟩ := h'
    · exact ⟨hin, .inl htold⟩
    · rw [hl] at he
      cases he
  refine h.advance hi (by simp) ?_ (fun hin ↦ ?_) (fun hr hc ↦ ?_) (fun hc ↦ ?_) ?_ hresults ?_ fun j hj ↦ ?_
  · rw [hlock]
    exact h.sole.keep hi id
  · rcases hhandle with hopen | ⟨hfailed, hsame⟩
    · exact hopen
    · have hback (e : ℕ) (he : (e, true) ∈ s'.loads.results) : (e, true) ∈ s.loads.results := by
        rw [hloads] at he
        exact (mem_ended_results.mp he).resolve_left fun hnew ↦ hfailed hnew.2
      rw [hsame]
      refine h.inUse ?_
      rcases hin with ⟨e, he, hr⟩ | ⟨t, ht, hcounts⟩
      · rw [hloads] at he
        exact .inl ⟨e, he, hback e hr⟩
      · rw [htickets] at ht
        refine .inr ⟨t, ht, ?_⟩
        rcases t with ⟨j, _ | _ | e⟩
        · exact hcounts
        · exact hcounts
        · exact hback e hcounts
  · rcases hhandle with hopen | ⟨-, hsame⟩
    · exact hopen
    · rw [hsame]
      exact h.ready (hstate ▸ hr) (hclosing ▸ hc)
  · rw [hclosing] at hc
    exact closing_or l hc
  · rw [htickets]
    exact fun _ ht _ ↦ ht
  · obtain ⟨hasked, hjoined, htold⟩ := hholds.mono (fun t ht _ ↦ htickets ▸ ht) hresults
    exact ⟨hasked, hjoined, htold⟩
  · rw [hnative] at hj
    exact h.native_of_mono hi hrun hj

theorem Safe.stateIs {state : State} (h : Safe s ls) (hi : ls[i]? = some l)
    (hG : unused.call s i (.stateIs state)) :
    Safe (if state = .ready ∧ s.state = .ready then s.told i .ready else s)
      (ls.set i { l with told := l.told || (l.asked && (decide (s.state = state) && decide (state = .ready))) } ++
        []) := by
  have hholds := h.holds i l hi
  by_cases hready : state = .ready ∧ s.state = .ready
  · obtain ⟨rfl, hstate⟩ := hready
    rw [if_pos ⟨rfl, hstate⟩]
    have hcounts (hgenerating : Generating s i) : s.handle = true :=
      h.ready hstate ((hG hgenerating).resolve_right (not_not.mpr hstate))
    have hmono : Holds (s.told i .ready) i l := by
      refine hholds.mono (fun t ht _ ↦ mem_told ht) ?_
      rw [told_loads]
      exact fun _ hp ↦ hp
    refine h.told hi (fun hgenerating _ ↦ hcounts hgenerating) rfl rfl ?_ ⟨hmono.asked, hmono.joined, fun htold ↦ ?_⟩
    · exact fun hrun ↦ ⟨hrun.1, hrun.2.imp_left fun htold ↦ by simp [htold]⟩
    · rcases Bool.or_eq_true_iff.mp htold with htold | hasked
      · exact hmono.told htold
      · have hasked : l.asked = true := (Bool.and_eq_true_iff.mp hasked).1
        exact ⟨_, told_self (hholds.asked hasked), rfl, trivial⟩
  · rw [if_neg hready]
    have htold : (l.told || (l.asked && (decide (s.state = state) && decide (state = .ready)))) = l.told := by
      have hfalse : (decide (s.state = state) && decide (state = .ready)) = false := by
        rw [Bool.and_eq_false_iff, decide_eq_false_iff_not, decide_eq_false_iff_not]
        by_cases hst : state = .ready
        · exact .inl fun heq ↦ hready ⟨hst, heq.trans hst⟩
        · exact .inr hst
      rw [hfalse, Bool.and_false, Bool.or_false]
    exact h.frame hi (by simp) rfl rfl rfl htold rfl rfl (fun _ ↦ id) rfl rfl id rfl rfl rfl
      (fun _ he ↦ .inl he) rfl

theorem Safe.join {d : ℕ} (mutex : MutexAt) (h : Safe s ls) (hi : ls[i]? = some l)
    (hcounts : (d, true) ∈ s.loads.results → s.handle = true) :
    Safe (s.told i (.joined d)) (ls.set i { l with mutex, joined := some d } ++ []) := by
  have hmono : Holds (s.told i (.joined d)) i l := by
    refine (h.holds i l hi).mono (fun t ht _ ↦ mem_told ht) ?_
    rw [told_loads]
    exact fun _ hp ↦ hp
  refine h.told hi (fun _ hc ↦ hcounts hc) rfl rfl id ⟨hmono.asked, fun hasked e he ↦ ?_, hmono.told⟩
  cases he
  exact told_self ((h.holds i l hi).asked hasked)

theorem Safe.publish {d : ℕ} (h : Safe s ls) (hfresh : (d, true) ∉ s.loads.results) :
    Safe { s with loads.loadDeferred := some d } ls := by
  refine ⟨h.sole, fun hin ↦ h.inUse ?_, h.ready, h.closing, fun j x hj ↦ ?_, h.native⟩
  · rcases hin with ⟨e, he, hr⟩ | hin
    · cases he
      exact absurd hr hfresh
    · exact .inr hin
  · obtain ⟨hasked, hjoined, htold⟩ := h.holds j x hj
    exact ⟨hasked, hjoined, htold⟩

theorem Safe.await {d : ℕ} {r : Bool} (h : Safe s ls) (hi : ls[i]? = some l) (hinv : Inv s ls)
    (hjoined : l.joined = some d) (hdone : s.loads.completed.lookup d = some r) :
    Safe { s with loads.resumed := (d, r) :: s.loads.resumed }
      (ls.set i { l with told := l.told || (l.asked && r) } ++ []) := by
  have hholds := h.holds i l hi
  refine h.advance hi (by simp) (h.sole.keep hi id) h.inUse h.ready (fun hc ↦ ?_) (fun _ ht _ ↦ ht) (fun _ hp ↦ hp)
    ⟨hholds.asked, hholds.joined, fun htold ↦ ?_⟩ fun j hj ↦ h.native_of_mono hi ?_ hj
  · exact closing_or l hc
  · rcases Bool.or_eq_true_iff.mp htold with htold | hasked
    · exact hholds.told htold
    · obtain ⟨hasked, hr⟩ := Bool.and_eq_true_iff.mp hasked
      rw [hr] at hdone
      obtain ⟨before, after, hcompleted, -⟩ := List.lookup_eq_some_iff.mp hdone
      have hresult : (d, true) ∈ s.loads.results := hinv.board.completed d true (by simp [hcompleted])
      exact ⟨_, hholds.joined hasked d hjoined, rfl, hresult⟩
  · exact fun hrun ↦ ⟨hrun.1, hrun.2.imp_left fun htold ↦ by simp [htold]⟩

theorem Safe.setState {state : State} (h : Safe s ls) (hi : ls[i]? = some l) (hinv : Inv s ls)
    (hallow : disc.allow l (.setState state)) :
    Safe { s with state, closing := s.closing && state ≠ .notLoaded }
      (ls.set i (disc.next l (.setState state) ()) ++ []) := by
  have hholds := h.holds i l hi
  cases state with
  | notLoaded =>
    obtain ⟨hlock, -⟩ := hallow
    have hload : (disc.next l (.setState .notLoaded) ()).load = l.load := by
      have hstay (stage : Stage) : stage.setState .notLoaded = stage := by
        cases stage <;> rfl
      rw [setState_load]
      simp [hstay]
    have hrun : MayRun l → MayRun (disc.next l (.setState .notLoaded) ()) := fun hrun ↦ by
      rw [MayRun, hload]
      exact hrun
    refine h.advance hi (by simp) (h.sole.keep hi id) h.inUse (fun hready ↦ ?_) (by simp) (fun _ ht _ ↦ ht)
      (fun _ hp ↦ hp) ⟨hholds.asked, hholds.joined, hholds.told⟩ fun j hj ↦ h.native_of_mono hi hrun hj
    cases hready
  | ready =>
    obtain ⟨hnative, d, hl⟩ := hallow
    have hopen : s.handle = true := h.inUse (inUse_of_returned hinv hi hl)
    refine h.advance hi (by simp) (h.sole.keep hi id) h.inUse (fun _ _ ↦ hopen) (fun hc ↦ ?_) (fun _ ht _ ↦ ht)
      (fun _ hp ↦ hp) ⟨hholds.asked, hholds.joined, hholds.told⟩ fun j hj ↦ h.native_of_mono hi (fun hrun ↦ ?_) hj
    · have hclosing : (disc.next l (.setState .ready) ()).closing = l.closing := Bool.and_true _
      rw [hclosing]
      by_cases hown : l.lock = true ∧ l.closing = true
      · exact .inl hown
      · exact .inr ⟨(Bool.and_eq_true_iff.mp hc).1, hown⟩
    · rw [MayRun, hnative] at hrun
      cases hrun.1
  | loading =>
    obtain ⟨d, hl⟩ := hallow
    refine h.frame hi (by simp) rfl rfl rfl rfl rfl (Bool.and_true _) (by simp [hl]) rfl rfl (fun hready ↦ ?_)
      (Bool.and_true _) rfl rfl (fun _ he ↦ .inl he) rfl
    cases hready
  | warming =>
    obtain ⟨d, hl⟩ := hallow
    refine h.frame hi (by simp) rfl rfl rfl rfl rfl (Bool.and_true _) (by simp [hl, disc, Stage.setState]) rfl rfl
      (fun hready ↦ ?_) (Bool.and_true _) rfl rfl (fun _ he ↦ .inl he) rfl
    cases hready
  | error =>
    obtain ⟨d, hl⟩ := hallow
    refine h.frame hi (by simp) rfl rfl rfl rfl rfl (Bool.and_true _) (by simp [hl]) rfl rfl (fun hready ↦ ?_)
      (Bool.and_true _) rfl rfl (fun _ he ↦ .inl he) rfl
    cases hready

theorem Safe.call {errors : Bool} {op : FacadeOp} {offer r : facadeSig.Resp op} (hinv : Inv s ls) (h : Safe s ls)
    (hi : ls[i]? = some l) (hallow : disc.allow l op) (hG : unused.call s i op)
    (hact : act errors i op offer s = some (r, s')) :
    Safe s' (ls.set i (disc.next l op r) ++ ((spawned op).map fun _ ↦ spawnLocal op).toList) := by
  have hholds := h.holds i l hi
  cases op with
  | request =>
    cases hact
    exact h.request hi hallow
  | stateIs state =>
    cases hact
    exact h.stateIs hi hG
  | setState state =>
    cases hact
    exact h.setState hi hinv hallow
  | lock =>
    simp only [act] at hact
    split at hact
    · cases hact
    · rename_i hlock
      cases hact
      exact h.acquire hi (by simpa using hlock)
  | unlock =>
    cases hact
    exact h.release hi hallow.1 hallow.2.1 hallow.2.2
  | enter call =>
    cases hact
    exact h.enter hi hallow.2
  | leave call =>
    cases hact
    exact h.leave hi
  | close =>
    cases hact
    exact h.close hi hallow hG
  | loadBegin d path =>
    cases hact
    refine h.frame hi (by simp [spawned]) rfl rfl rfl rfl rfl rfl (fun e he ↦ ?_) rfl rfl id rfl rfl rfl
      (fun _ he ↦ .inl he) rfl
    rw [show l.load = some (d, .loading) from hallow] at he
    cases he
  | loadEnd d =>
    simp only [act] at hact
    cases offer with
    | returned =>
      cases hact
      exact h.loadEnd .returned hi hallow rfl (.inl rfl) rfl rfl rfl rfl rfl
    | exception e =>
      cases hact
      exact h.loadEnd (.exception e) hi hallow rfl (.inr ⟨by simp [Stage.loadEnd, Stage.result], rfl⟩)
        rfl rfl rfl rfl rfl
    | error e =>
      dsimp only at hact
      split at hact
      · cases hact
        exact h.loadEnd (.error e) hi hallow rfl (.inr ⟨by simp [Stage.loadEnd, Stage.result], rfl⟩) rfl rfl rfl rfl rfl
      · cases hact
  | lockMutex =>
    simp only [act] at hact
    split at hact
    · cases hact
    · cases hact
      exact h.frame hi (by simp [spawned]) rfl rfl rfl rfl rfl rfl (fun _ ↦ id) rfl rfl id rfl rfl rfl
        (fun _ he ↦ .inl he) rfl
  | getDeferred =>
    cases hact
    cases hd : s.loads.loadDeferred with
    | none =>
      exact h.frame hi (by simp [spawned]) rfl rfl rfl rfl rfl rfl (fun _ ↦ id) rfl rfl id rfl rfl rfl
        (fun _ he ↦ .inl he) rfl
    | some d => exact h.join l.mutex hi fun hr ↦ h.inUse (.inl ⟨d, hd, hr⟩)
  | setDeferred deferred =>
    cases deferred with
    | none =>
      cases hact
      obtain ⟨-, d, r, hl⟩ := hallow
      refine h.frame hi (by simp [spawned]) rfl rfl rfl rfl rfl rfl (by simp [hl]) rfl rfl id rfl rfl rfl
        (fun d hd ↦ ?_) rfl
      cases hd
    | some d =>
      cases hact
      have hfresh (r : Bool) : (d, r) ∉ s.loads.results :=
        (hinv.board.starting d ((hinv.knows i l hi).created d hallow).2).2.2 r
      have hjoin := h.join (.published d) hi fun hr ↦ absurd hr (hfresh true)
      exact hjoin.publish (by rw [told_loads]; exact hfresh true)
  | complete d result =>
    cases hact
    refine h.frame hi (by simp [spawned]) rfl rfl rfl rfl rfl rfl (fun e he ↦ ?_) rfl rfl id rfl rfl rfl
      (fun _ he ↦ .inl he) rfl
    rw [show l.load = some (d, .cleared result) from hallow] at he
    cases he
  | await d =>
    simp only [act] at hact
    split at hact
    · rename_i result hresult
      cases hact
      exact h.await hi hinv hallow hresult
    · cases hact
  | launchLoad d =>
    cases hact
    exact h.frame hi (by simp [spawned, spawnLocal]) rfl rfl rfl rfl rfl rfl (fun _ ↦ id) rfl rfl id rfl rfl rfl
      (fun _ he ↦ .inl he) rfl
  | launchIdleUnload job =>
    cases hact
    exact h.frame hi (by simp [spawned, spawnLocal]) rfl rfl rfl rfl rfl rfl (fun _ ↦ id) rfl rfl id rfl rfl rfl
      (fun _ he ↦ .inl he) rfl
  | getPath | setPath path | unlockMutex | newDeferred | getJob | setJob job | cancel job | newJob | delay job =>
    cases hact
    exact h.frame hi (by simp [spawned]) rfl rfl rfl rfl rfl rfl (fun _ ↦ id) rfl rfl id rfl rfl rfl
      (fun _ he ↦ .inl he) rfl

theorem Safe.start (h : Safe s ls) : Safe s (ls ++ [({} : Local)]) := by
  have hget {j : ℕ} {x : Local} (hj : (ls ++ [({} : Local)])[j]? = some x) : ls[j]? = some x ∨ x = {} := by
    rw [List.getElem?_append] at hj
    split at hj
    · exact .inl hj
    · exact .inr (List.mem_singleton.mp (List.mem_of_getElem? hj))
  refine ⟨h.sole.append (by simp), h.inUse, h.ready, fun hc ↦ ?_, fun j x hj ↦ ?_, fun j hj ↦ ?_⟩
  · obtain ⟨j, x, hj, hx⟩ := h.closing hc
    exact ⟨j, x, getElem?_append_of_some hj, hx⟩
  · rcases hget hj with hj | rfl
    · exact h.holds j x hj
    · exact holds_idle rfl rfl
  · obtain ⟨x, hx, hrun⟩ := h.native j hj
    exact ⟨x, getElem?_append_of_some hx, hrun⟩

end Step

theorem safe_init : Safe .init [] :=
  ⟨.nil, by simp [InUse, Shared.init], by simp [Shared.init], by simp [Shared.init], by simp, by simp [Shared.init]⟩

variable (agentName ownerName : Strings.Str) (P : Platform) (errors : Bool)

def outline : Outline (machine agentName ownerName P errors) unused Local where
  disc := disc
  final _ := True
  entryLocal _ := {}
  spawnLocal := spawnLocal
  inv s ls := Inv s ls ∧ Safe s ls
  entry_wp _ call _ := entry_wp agentName ownerName P call
  spawn_wp _ _ op p _ := spawn_wp op p
  inv_start _ _ _ _ h := ⟨h.1.start, h.2.start⟩
  inv_call _ _ _ _ _ _ _ _ hi hallow hG hact h := by
    obtain ⟨hmay, hinv⟩ := h.1.call hi hallow hact
    exact ⟨hmay, hinv, h.2.call h.1 hi hallow hG hact⟩

/-- The model runs only while its handle is open, and a free lock and the state READY mean
that it is. -/
theorem handle_open {c : Configuration}
    (h : (machine agentName ownerName P errors).Reachable unused ⟨.init, []⟩ c) :
    (c.shared.native ≠ [] → c.shared.handle = true) ∧
      (c.shared.lock = false → c.shared.state = .ready → c.shared.handle = true) := by
  obtain ⟨ls, -, hinv, hsafe⟩ := (outline agentName ownerName P errors).reachable h
    (Outline.holds_init _ ⟨inv_init, safe_init⟩)
  refine ⟨fun hnative ↦ ?_, hsafe.handle_of_ready⟩
  obtain ⟨i, hi⟩ := List.exists_mem_of_ne_nil _ hnative
  exact hsafe.handle_of_native hinv hi

/-! A generation after an unload, and an unload before a generation gets the lock -/

def check (s : Shared) (thread : ℕ) : FacadeOp → Bool
  | .close => ¬InUse s
  | .stateIs _ => Generating s thread → s.closing = false ∨ s.state ≠ .ready
  | _ => true

theorem unused_of_check {s : Shared} {thread : ℕ} {op : FacadeOp} (h : check s thread op = true) :
    unused.call s thread op := by
  cases op with
  | close => exact of_decide_eq_true (p := ¬InUse s) h
  | stateIs state =>
    have hread := of_decide_eq_true (p := Generating s thread → s.closing = false ∨ s.state ≠ .ready) h
    cases state with
    | ready => exact hread
    | notLoaded | loading | warming | error => trivial
  | _ => trivial

def loaded : List (Label facadeSig Call) :=
  [.start (.loadModel "model.gguf")] ++ calls 0 12 ++ calls 1 18 ++ calls 0 1

def reloaded : List (Label facadeSig Call) :=
  loaded ++ [.start .unloadModel] ++ calls 2 6 ++ [.start (.generateChatReply "hello")] ++ calls 3 12 ++
    calls 4 18 ++ calls 3 3

def overtaken : List (Label facadeSig Call) :=
  loaded ++ [.start (.generateChatReply "hello")] ++ calls 2 4 ++ [.start .unloadModel] ++ calls 3 6 ++ calls 2 2

theorem reply_after_reload : ∃ c,
    sample.run check ⟨.init, []⟩ reloaded = some c ∧
      c.shared.native = [3] ∧ c.shared.handle = true := by
  have h : (sample.run check ⟨.init, []⟩ reloaded).map
      (fun c ↦ c.shared.native) = some [3] := by decide +kernel
  obtain ⟨c, hc, hnative⟩ := Option.map_eq_some_iff.mp h
  have hreach := Machine.reachable_of_run (G := unused) _ (fun _ _ ↦ trivial) (fun _ _ _ ↦ unused_of_check) hc
  refine ⟨c, hc, hnative, (handle_open "Aigentik" "Owner" asciiPlatform false hreach).1 ?_⟩
  simp [hnative]

/-- The caller has seen READY, and asks a closed model. -/
theorem asked_after_unload : ∃ c, sample.run (fun _ _ _ ↦ true) ⟨.init, []⟩ overtaken = some c ∧
    ¬(c.shared.native ≠ [] → c.shared.handle = true) := by
  have h : (sample.run (fun _ _ _ ↦ true) ⟨.init, []⟩ overtaken).map
      (fun c ↦ (c.shared.native, c.shared.handle)) = some ([2], false) := by decide +kernel
  obtain ⟨c, hc, heq⟩ := Option.map_eq_some_iff.mp h
  simp only [Prod.mk.injEq] at heq
  exact ⟨c, hc, by simp [heq]⟩

end Aigentik.HandleSafety
