import Aigentik.Effects.StepRuns

namespace Aigentik.ConnectionWatchdog

open Effects

/-- Where a launched loop is: before a look at the flag, in its delay, or past its end. -/
inductive Phase
  | looking
  | sleeping
  | ended
  deriving DecidableEq

structure State where
  isRunning : Bool
  loops : List Phase
  deriving DecidableEq

/-- The calls, and what the loops do: a tick is the end of a delay with the check after it, which may throw. -/
inductive Event
  | start
  | stop
  | checkNow
  | look (i : ℕ)
  | tick (i : ℕ) (throws : Bool)
  deriving DecidableEq

def start (s : State) : State :=
  if s.isRunning then s else { isRunning := true, loops := s.loops ++ [.looking] }

def stop (s : State) : State := { s with isRunning := false }

/-- The scope is never cancelled, so `isActive` holds at every look. -/
def next (s : State) : Event → Option State
  | .start => some (start s)
  | .stop => some (stop s)
  -- a check of its own, next to the loops
  | .checkNow => some s
  | .look i =>
    if s.loops[i]? = some .looking then
      some { s with loops := s.loops.set i (if s.isRunning then .sleeping else .ended) }
    else none
  -- what a check throws ends its coroutine only, under the supervisor job
  | .tick i throws =>
    if s.loops[i]? = some .sleeping then
      some { s with loops := s.loops.set i (if throws then .ended else .looking) }
    else none

def initial : State := ⟨false, []⟩

abbrev Run : State → List Event → State → Prop := StepRun fun s e s' ↦ next s e = some s'

variable {s s' : State} {e : Event} {es earlier later : List Event} {i j : ℕ} {b : Bool}

/-- The last call was a stop. -/
def Stopped (earlier : List Event) : Prop :=
  ∃ before after, earlier = before ++ .stop :: after ∧ .start ∉ after

/-- What may follow a moment: of the loops launched by then, at most one performs another check, and none at
all when the last call was a stop, unless a start follows. -/
structure OneLoop (earlier : List Event) (s : State) : Prop where
  one : ∀ later s', Run s later s' → ∀ i j b c, .tick i b ∈ later → .tick j c ∈ later →
    i < s.loops.length → j < s.loops.length → i = j
  none_after_stop : Stopped earlier → ∀ later s', Run s later s' → .start ∉ later → ∀ i b, .tick i b ∉ later

/-- A stop only while no loop is in its delay, and a start that launches a loop only when all others have
ended. -/
def Meets (s : State) : Event → Prop
  | .start => s.isRunning = true ∨ ∀ phase ∈ s.loops, phase = .ended
  | .stop => .sleeping ∉ s.loops
  | .checkNow | .look _ | .tick .. => True

def Alive (s : State) (i : ℕ) : Prop := ∃ phase, s.loops[i]? = some phase ∧ phase ≠ .ended

structure Inv (s : State) : Prop where
  one : ∀ i j, Alive s i → Alive s j → i = j
  awake : s.isRunning = false → .sleeping ∉ s.loops

theorem Alive.lt (h : Alive s i) : i < s.loops.length := by
  obtain ⟨phase, hphase, -⟩ := h
  exact (List.getElem?_eq_some_iff.mp hphase).1

theorem alive_of_alive_set {phase phase' : Phase} (hi : s.loops[i]? = some phase) (hphase : phase ≠ .ended)
    (h : Alive { s with loops := s.loops.set i phase' } j) : Alive s j := by
  obtain ⟨phase'', hj, hphase''⟩ := h
  by_cases hij : i = j
  · exact ⟨phase, hij ▸ hi, hphase⟩
  · exact ⟨phase'', by rwa [List.getElem?_set_ne hij] at hj, hphase''⟩

theorem next_look : next s (.look i) = some s' ↔
    s.loops[i]? = some .looking ∧
      { s with loops := s.loops.set i (if s.isRunning then .sleeping else .ended) } = s' := by
  rw [next, Option.ite_none_right_eq_some, Option.some.injEq]

theorem next_tick : next s (.tick i b) = some s' ↔
    s.loops[i]? = some .sleeping ∧ { s with loops := s.loops.set i (if b then .ended else .looking) } = s' := by
  rw [next, Option.ite_none_right_eq_some, Option.some.injEq]

theorem length_le_of_next (hnext : next s e = some s') : s.loops.length ≤ s'.loops.length := by
  cases e with
  | start =>
    obtain rfl : start s = s' := Option.some.inj hnext
    unfold start
    split
    · exact le_rfl
    · simp only [List.length_append, List.length_singleton, Nat.le_add_right]
  | stop =>
    obtain rfl : stop s = s' := Option.some.inj hnext
    exact le_rfl
  | checkNow =>
    obtain rfl : s = s' := Option.some.inj hnext
    exact le_rfl
  | look i =>
    obtain ⟨-, rfl⟩ := next_look.mp hnext
    exact List.length_set.ge
  | tick i b =>
    obtain ⟨-, rfl⟩ := next_tick.mp hnext
    exact List.length_set.ge

/-- No step brings a loop back. -/
theorem alive_of_next (hnext : next s e = some s') (hi : i < s.loops.length) (h : Alive s' i) : Alive s i := by
  cases e with
  | start =>
    obtain rfl : start s = s' := Option.some.inj hnext
    obtain ⟨phase, hphase, halive⟩ := h
    unfold start at hphase
    split at hphase
    · exact ⟨phase, hphase, halive⟩
    · exact ⟨phase, by rwa [List.getElem?_append_left hi] at hphase, halive⟩
  | stop =>
    obtain rfl : stop s = s' := Option.some.inj hnext
    exact h
  | checkNow =>
    obtain rfl : s = s' := Option.some.inj hnext
    exact h
  | look j =>
    obtain ⟨hj, rfl⟩ := next_look.mp hnext
    exact alive_of_alive_set hj (by decide) h
  | tick j b =>
    obtain ⟨hj, rfl⟩ := next_tick.mp hnext
    exact alive_of_alive_set hj (by decide) h

/-- A loop that ticks later is alive now. -/
theorem alive_of_tick_mem (hrun : Run s later s') (htick : .tick i b ∈ later) (hi : i < s.loops.length) :
    Alive s i := by
  induction hrun with
  | nil s => exact absurd htick List.not_mem_nil
  | cons hnext _ ih =>
    rcases List.mem_cons.mp htick with rfl | htick
    · exact ⟨.sleeping, (next_tick.mp hnext).1, by decide⟩
    · exact alive_of_next hnext hi (ih htick (hi.trans_le (length_le_of_next hnext)))

theorem Alive.of_start (hrunning : s.isRunning = false) (hended : ∀ phase ∈ s.loops, phase = .ended)
    (h : Alive (start s) i) : i = s.loops.length := by
  obtain ⟨phase, hi, hphase⟩ := h
  rw [start, if_neg (Bool.eq_false_iff.mp hrunning)] at hi
  rcases lt_or_ge i s.loops.length with hlt | hle
  · rw [List.getElem?_append_left hlt] at hi
    exact absurd (hended phase (List.mem_of_getElem? hi)) hphase
  · rw [List.getElem?_append_right hle] at hi
    have hlt := (List.getElem?_eq_some_iff.mp hi).1
    rw [List.length_singleton] at hlt
    omega

theorem inv_initial : Inv initial where
  one := by
    intro i j hi
    exact absurd hi.lt (Nat.not_lt_zero i)
  awake := fun _ ↦ List.not_mem_nil

theorem inv_start (hs : Inv s) (hmeets : Meets s .start) : Inv (start s) := by
  cases hrunning : s.isRunning with
  | true => rwa [start, if_pos hrunning]
  | false =>
    have hended : ∀ phase ∈ s.loops, phase = .ended := hmeets.resolve_left (Bool.eq_false_iff.mp hrunning)
    refine ⟨fun i j hi hj ↦ ?_, fun h ↦ ?_⟩
    · exact (hi.of_start hrunning hended).trans (hj.of_start hrunning hended).symm
    · rw [start, if_neg (Bool.eq_false_iff.mp hrunning)] at h
      exact Bool.noConfusion h

theorem inv_set {phase phase' : Phase} (hs : Inv s) (hi : s.loops[i]? = some phase) (hphase : phase ≠ .ended)
    (hphase' : s.isRunning = false → phase' ≠ .sleeping) : Inv { s with loops := s.loops.set i phase' } where
  one j k hj hk := hs.one j k (alive_of_alive_set hi hphase hj) (alive_of_alive_set hi hphase hk)
  awake hrunning hmem := (List.mem_or_eq_of_mem_set hmem).elim (hs.awake hrunning) fun h ↦ hphase' hrunning h.symm

theorem inv_step (hs : Inv s) (hmeets : Meets s e) (hnext : next s e = some s') : Inv s' := by
  cases e with
  | start =>
    obtain rfl : start s = s' := Option.some.inj hnext
    exact inv_start hs hmeets
  | stop =>
    obtain rfl : stop s = s' := Option.some.inj hnext
    exact ⟨hs.one, fun _ ↦ hmeets⟩
  | checkNow =>
    obtain rfl : s = s' := Option.some.inj hnext
    exact hs
  | look i =>
    obtain ⟨hi, rfl⟩ := next_look.mp hnext
    refine inv_set hs hi (by decide) fun hrunning ↦ ?_
    rw [if_neg (Bool.eq_false_iff.mp hrunning)]
    decide
  | tick i b =>
    obtain ⟨hi, rfl⟩ := next_tick.mp hnext
    refine inv_set hs hi (by decide) fun _ ↦ ?_
    cases b <;> decide

theorem isRunning_step (hs : s.isRunning = false) (he : e ≠ .start) (hnext : next s e = some s') :
    s'.isRunning = false := by
  cases e with
  | start => exact absurd rfl he
  | stop =>
    obtain rfl : stop s = s' := Option.some.inj hnext
    rfl
  | checkNow =>
    obtain rfl : s = s' := Option.some.inj hnext
    exact hs
  | look i =>
    obtain ⟨-, rfl⟩ := next_look.mp hnext
    exact hs
  | tick i b =>
    obtain ⟨-, rfl⟩ := next_tick.mp hnext
    exact hs

theorem isRunning_of_stopped (hstopped : Stopped earlier) (hrun : Run initial earlier s) :
    s.isRunning = false := by
  obtain ⟨before, after, rfl, hafter⟩ := hstopped
  obtain ⟨s₁, -, hrun⟩ := hrun.split
  cases hrun with
  | cons hnext hrun =>
    obtain rfl : stop s₁ = _ := Option.some.inj hnext
    refine hrun.invariant (fun e he s s' hs hnext ↦ isRunning_step hs ?_ hnext) rfl
    exact ne_of_mem_of_not_mem he hafter

/-- Without a start, a stopped watchdog whose loops are not in a delay stays so. -/
theorem quiet_step (hs : s.isRunning = false ∧ .sleeping ∉ s.loops) (he : e ≠ .start)
    (hnext : next s e = some s') : s'.isRunning = false ∧ .sleeping ∉ s'.loops := by
  refine ⟨isRunning_step hs.1 he hnext, ?_⟩
  cases e with
  | start => exact absurd rfl he
  | stop =>
    obtain rfl : stop s = s' := Option.some.inj hnext
    exact hs.2
  | checkNow =>
    obtain rfl : s = s' := Option.some.inj hnext
    exact hs.2
  | look i =>
    obtain ⟨-, rfl⟩ := next_look.mp hnext
    intro hmem
    rw [if_neg (Bool.eq_false_iff.mp hs.1)] at hmem
    exact (List.mem_or_eq_of_mem_set hmem).elim hs.2 Phase.noConfusion
  | tick i b => exact absurd (List.mem_of_getElem? (next_tick.mp hnext).1) hs.2

theorem Inv.oneLoop (hs : Inv s) (hrun : Run initial earlier s) : OneLoop earlier s where
  one later s' hlater i j b c hi hj hilt hjlt :=
    hs.one i j (alive_of_tick_mem hlater hi hilt) (alive_of_tick_mem hlater hj hjlt)
  none_after_stop hstopped later s' hlater hstart i b := by
    have hrunning := isRunning_of_stopped hstopped hrun
    refine hlater.not_mem (I := fun s ↦ s.isRunning = false ∧ .sleeping ∉ s.loops) ?_ ⟨hrunning, hs.awake hrunning⟩ ?_
    · intro e he s s' hquiet hnext
      exact quiet_step hquiet (ne_of_mem_of_not_mem he hstart) hnext
    · intro s s' hquiet hnext
      exact hquiet.2 (List.mem_of_getElem? (next_tick.mp hnext).1)

theorem meets_stop (hs : OneLoop (earlier ++ [.stop]) (stop s)) : Meets s .stop := by
  intro hmem
  obtain ⟨i, hi⟩ := List.mem_iff_getElem?.mp hmem
  have hrun : Run (stop s) [.tick i false] _ := .cons (next_tick.mpr ⟨hi, rfl⟩) (.nil _)
  exact hs.none_after_stop ⟨earlier, [], rfl, List.not_mem_nil⟩ _ _ hrun (by simp) i false List.mem_cons_self

/-- A loop that is about to look when another is launched ticks as the new one does. -/
theorem exists_run_of_start (hrunning : s.isRunning = false) (hi : s.loops[i]? = some .looking) :
    ∃ s', Run (start s) [.look i, .look s.loops.length, .tick i false, .tick s.loops.length false] s' := by
  have hlt : i < s.loops.length := (List.getElem?_eq_some_iff.mp hi).1
  have hne : i ≠ s.loops.length := hlt.ne
  have hstart : start s = ⟨true, s.loops ++ [.looking]⟩ := if_neg (Bool.eq_false_iff.mp hrunning)
  rw [hstart]
  refine ⟨_, .cons (next_look.mpr ⟨?_, rfl⟩) (.cons (next_look.mpr ⟨?_, rfl⟩)
    (.cons (next_tick.mpr ⟨?_, rfl⟩) (.cons (next_tick.mpr ⟨?_, rfl⟩) (.nil _))))⟩
  · rwa [List.getElem?_append_left hlt]
  · rw [List.getElem?_set_ne hne, List.getElem?_concat_length]
  · rw [List.getElem?_set_ne hne.symm, List.getElem?_set_self (by simp only [List.length_append]; omega)]
    rfl
  · rw [List.getElem?_set_ne hne, List.getElem?_set_self (by simp)]
    rfl

theorem meets_start (hs : Inv s) (hafter : OneLoop (earlier ++ [.start]) (start s)) : Meets s .start := by
  by_contra hmeets
  obtain ⟨hrunning, hloops⟩ := not_or.mp hmeets
  push Not at hloops
  obtain ⟨phase, hmem, hphase⟩ := hloops
  obtain ⟨i, hi⟩ := List.mem_iff_getElem?.mp hmem
  have hrunning : s.isRunning = false := Bool.eq_false_iff.mpr hrunning
  have hi' : s.loops[i]? = some .looking := by
    cases phase with
    | looking => exact hi
    | sleeping => exact absurd hmem (hs.awake hrunning)
    | ended => exact absurd rfl hphase
  obtain ⟨s', hrun⟩ := exists_run_of_start hrunning hi'
  have hlt : i < s.loops.length := (List.getElem?_eq_some_iff.mp hi).1
  have hlength : (start s).loops.length = s.loops.length + 1 := by
    rw [start, if_neg (Bool.eq_false_iff.mp hrunning), List.length_append, List.length_singleton]
  have heq := hafter.one _ s' hrun i s.loops.length false false (by simp) (by simp) (by omega) (by omega)
  omega

/-- A watchdog keeps one loop at every moment exactly when no stop falls into a delay and no start comes upon a
loop that has not ended. -/
theorem oneLoop_iff (es : List Event) :
    (∀ earlier, earlier <+: es → ∀ s, Run initial earlier s → OneLoop earlier s) ↔
      ∀ earlier e, earlier ++ [e] <+: es → ∀ s, Run initial earlier s → Meets s e := by
  constructor
  · intro hone
    have hmeets : ∀ earlier e s s', earlier ++ [e] <+: es → Run initial earlier s → Inv s →
        next s e = some s' → Meets s e := by
      intro earlier e s s' hpre hrun hs hnext
      have hafter := hone _ hpre s' (hrun.append (.cons hnext (.nil s')))
      cases e with
      | start =>
        obtain rfl : start s = s' := Option.some.inj hnext
        exact meets_start hs hafter
      | stop =>
        obtain rfl : stop s = s' := Option.some.inj hnext
        exact meets_stop hafter
      | checkNow => trivial
      | look i => trivial
      | tick i b => trivial
    intro earlier e hpre s hrun
    have hs : Inv s := by
      refine hrun.invariant_at ((List.prefix_append earlier [e]).trans hpre) inv_initial ?_
      intro before e s s' hpre hbefore hs hnext
      exact inv_step hs (hmeets before e s s' hpre hbefore hs hnext) hnext
    cases e with
    | start => exact hmeets earlier _ s _ hpre hrun hs rfl
    | stop => exact hmeets earlier _ s _ hpre hrun hs rfl
    | checkNow => trivial
    | look i => trivial
    | tick i b => trivial
  · intro hmeets earlier hpre s hrun
    have hs : Inv s := by
      refine hrun.invariant_at hpre inv_initial fun before e s s' hpre hbefore hs hnext ↦ ?_
      exact inv_step hs (hmeets before e hpre s hbefore) hnext
    exact hs.oneLoop hrun

/-- Started, stopped during the delay and started again: two loops go on checking. -/
theorem restart_keeps_both : ∃ s, Run initial [.start, .look 0, .stop, .start] s ∧
    ¬OneLoop [.start, .look 0, .stop, .start] s := by
  refine ⟨⟨true, [.sleeping, .looking]⟩, .of_foldlM rfl, fun h ↦ ?_⟩
  have hrun : Run ⟨true, [.sleeping, .looking]⟩ [.look 1, .tick 0 false, .tick 1 false]
      ⟨true, [.looking, .looking]⟩ := .of_foldlM rfl
  exact absurd (h.one _ _ hrun 0 1 false false (by simp) (by simp) (by decide) (by decide)) (by decide)

end Aigentik.ConnectionWatchdog
