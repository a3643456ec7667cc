import Aigentik.Email.GmailNotifications

namespace Aigentik.SingleFetch

open Strings Effects GmailNotifications EmailMonitor

/-- The exception handler finds the flag free. -/
def unclaimed : Guard monitorSig Shared Input where
  start _ _ := True
  call s _
    | .releaseInHandler => s.isProcessing = false
    | _ => True

structure Inv (s : Shared) (ls : List Stage) : Prop where
  sole : Sole (fun l ↦ l.holds = true) s.isProcessing ls
  nodup : s.running.Nodup
  running : ∀ i ∈ s.running, ∃ l, ls[i]? = some l ∧ l.isFetching = true

/-- The fetches that are in progress, and the flag while there is one. -/
structure Exclusive (s : Shared) : Prop where
  single : s.running.length ≤ 1
  claimed : s.running ≠ [] → s.isProcessing = true

variable {s s' : Shared} {ls new : List Stage} {i : ℕ} {l l' : Stage}

theorem holds_of_isFetching (h : l.isFetching = true) : l.holds = true := by
  cases l <;> first | rfl | cases h

theorem Inv.exclusive (h : Inv s ls) : Exclusive s := by
  have holder : ∀ i ∈ s.running, ∃ l, ls[i]? = some l ∧ l.holds = true := by
    intro i hi
    obtain ⟨l, hl, hfetching⟩ := h.running i hi
    exact ⟨l, hl, holds_of_isFetching hfetching⟩
  have hnodup := h.nodup
  constructor
  · rcases hrunning : s.running with _ | ⟨i, _ | ⟨j, rest⟩⟩
    · exact Nat.zero_le 1
    · exact Nat.le_refl 1
    · obtain ⟨l, hl, hholds⟩ := holder i (by simp [hrunning])
      obtain ⟨l', hl', hholds'⟩ := holder j (by simp [hrunning])
      rw [hrunning, (h.sole i l hl hholds).2 j l' hl' hholds'] at hnodup
      simp at hnodup
  · intro hne
    obtain ⟨i, hi⟩ := List.exists_mem_of_ne_nil _ hne
    obtain ⟨l, hl, hholds⟩ := holder i hi
    exact (h.sole i l hl hholds).1

theorem Inv.move (h : Inv s ls) (hi : ls[i]? = some l)
    (hsole : Sole (fun l ↦ l.holds = true) s'.isProcessing (ls.set i l' ++ new)) (hnodup : s'.running.Nodup)
    (hrunning : ∀ j ∈ s'.running, (j = i ∧ l'.isFetching = true) ∨ (j ≠ i ∧ j ∈ s.running)) :
    Inv s' (ls.set i l' ++ new) := by
  refine ⟨hsole, hnodup, fun j hj ↦ ?_⟩
  rcases hrunning j hj with ⟨rfl, hfetching⟩ | ⟨hne, hj⟩
  · exact ⟨l', getElem?_append_of_some (getElem?_set_of_some hi), hfetching⟩
  · obtain ⟨x, hx, hfetching⟩ := h.running j hj
    refine ⟨x, getElem?_append_of_some ?_, hfetching⟩
    rwa [List.getElem?_set_ne (Ne.symm hne)]

theorem Inv.step (h : Inv s ls) (hi : ls[i]? = some l)
    (hsole : Sole (fun l ↦ l.holds = true) s'.isProcessing (ls.set i l')) (hnodup : s'.running.Nodup)
    (hrunning : ∀ j ∈ s'.running, (j = i ∧ l'.isFetching = true) ∨ (j ≠ i ∧ j ∈ s.running)) :
    Inv s' (ls.set i l' ++ []) :=
  h.move hi (by rwa [List.append_nil]) hnodup hrunning

/-- A thread that is not in a fetch, or stays in it, leaves the fetches in progress as they are. -/
theorem Inv.still (h : Inv s ls) (hi : ls[i]? = some l) (hl : l.isFetching = true → l'.isFetching = true) :
    ∀ j ∈ s.running, (j = i ∧ l'.isFetching = true) ∨ (j ≠ i ∧ j ∈ s.running) := by
  intro j hj
  by_cases hji : j = i
  · obtain ⟨x, hx, hfetching⟩ := h.running j hj
    rw [hji, hi] at hx
    cases hx
    exact .inl ⟨hji, hl hfetching⟩
  · exact .inr ⟨hji, hj⟩

theorem Inv.keep (h : Inv s ls) (hi : ls[i]? = some l) (hflag : s'.isProcessing = s.isProcessing)
    (hrunning : s'.running = s.running) (hholds : l'.holds = l.holds) (hfetching : l'.isFetching = l.isFetching) :
    Inv s' (ls.set i l' ++ []) := by
  refine h.step hi ?_ (hrunning ▸ h.nodup) (hrunning ▸ h.still hi fun hl ↦ hfetching ▸ hl)
  rw [hflag]
  exact h.sole.keep hi fun hl ↦ hholds ▸ hl

abbrev anyAnswer : (op : MailOp) → mailSig.Resp op → Bool := fun _ _ ↦ true

abbrev anyhow : Discipline monitorSig Stage := disc anyAnswer True fun _ ↦ True

variable {P : Platform}

theorem fetch_wp (msgId : Str) : ((fetch P).lift mailHom).wp anyhow
    (Prog.exits (fun _ l ↦ ∃ listed, l = .fetching msgId listed ∧ True)
      fun _ l ↦ True ∧ ∃ listed, l = .fetching msgId listed ∧ True) (.fetching msgId false) := by
  have hcalls : ((fetch P).lift mailHom).Calls fun op : MonitorOp ↦ ∃ o, op = .mail o :=
    Prog.calls_lift (fun op ↦ ⟨op, rfl⟩) _
  have hwp := hcalls.wp (D := anyhow) (I := fun l ↦ ∃ listed, l = .fetching msgId listed) (fun l op hl hop ↦ ?_)
    ⟨false, rfl⟩
  · refine Prog.wp_mono hwp fun o l hl ↦ ?_
    obtain ⟨listed, rfl⟩ := hl
    cases o with
    | ok _ => exact ⟨listed, rfl, trivial⟩
    | error e => exact ⟨trivial, listed, rfl, trivial⟩
  · obtain ⟨listed, rfl⟩ := hl
    obtain ⟨o, rfl⟩ := hop
    refine ⟨rfl, fun r _ ↦ ?_⟩
    change ∃ listed', (if lists o r = true then Stage.fetching msgId true else Stage.fetching msgId listed) = _
    split <;> exact ⟨_, rfl⟩

theorem inv_call {op : MonitorOp} {offer r : monitorSig.Resp op} (hi : ls[i]? = some l) (hallow : anyhow.allow l op)
    (hG : unclaimed.call s i op) (ha : GmailNotifications.act anyAnswer i op offer s = some (r, s')) (h : Inv s ls) :
    anyhow.may l op r ∧
      Inv s' (ls.set i (anyhow.next l op r) ++ ((spawned P op).map fun _ ↦ spawnStage op).toList) := by
  cases op with
  | arrive msgId =>
    obtain ⟨-, heq⟩ := Option.ite_none_left_eq_some.mp ha
    cases heq
    exact ⟨trivial, h.keep hi rfl rfl rfl rfl⟩
  | posted msgId =>
    obtain ⟨-, heq⟩ := Option.ite_none_right_eq_some.mp ha
    cases heq
    obtain rfl : l = .idle := hallow
    exact ⟨trivial, h.keep hi rfl rfl rfl rfl⟩
  | isSignedIn =>
    cases ha
    exact ⟨trivial, h.keep hi rfl rfl rfl rfl⟩
  | compareAndSet msgId =>
    cases ha
    refine ⟨trivial, ?_⟩
    obtain rfl : l = .posted msgId := hallow
    cases hflag : s.isProcessing with
    | true => exact h.keep hi hflag.symm rfl rfl rfl
    | false =>
      refine h.step hi ?_ h.nodup (h.still hi fun hl ↦ by cases hl)
      have hsole := h.sole
      rw [hflag] at hsole
      exact hsole.acquire
  | launch msgId =>
    cases ha
    obtain rfl : l = .won msgId := hallow
    refine ⟨trivial, h.move hi ?_ h.nodup (h.still hi fun hl ↦ by cases hl)⟩
    exact h.sole.handOver hi rfl (by simp [disc, Stage.holds])
  | begin =>
    cases ha
    obtain ⟨msgId, rfl⟩ := hallow
    have hfree : i ∉ s.running := by
      intro hmem
      obtain ⟨x, hx, hfetching⟩ := h.running i hmem
      rw [hi] at hx
      cases hx
      cases hfetching
    refine ⟨trivial, h.step hi (h.sole.keep hi fun _ ↦ rfl) (List.nodup_cons.mpr ⟨hfree, h.nodup⟩) fun j hj ↦ ?_⟩
    rcases List.mem_cons.mp hj with rfl | hj
    · exact .inl ⟨rfl, rfl⟩
    · exact .inr ⟨fun hji ↦ hfree (hji ▸ hj), hj⟩
  | finish =>
    cases ha
    obtain ⟨msgId, listed, rfl, -⟩ := hallow
    refine ⟨trivial, h.step hi (h.sole.keep hi fun _ ↦ rfl) (h.nodup.filter _) fun j hj ↦ ?_⟩
    obtain ⟨hj, hne⟩ := List.mem_filter.mp hj
    exact .inr ⟨of_decide_eq_true hne, hj⟩
  | mail op =>
    obtain ⟨-, rfl⟩ := act_mail ha
    refine ⟨rfl, ?_⟩
    change Inv _ (ls.set i (if lists op r = true then l.list else l) ++ [])
    split
    · cases l <;> exact h.keep hi rfl rfl rfl rfl
    · exact h.keep hi rfl rfl rfl rfl
  | release =>
    cases ha
    obtain rfl : l = .finished := hallow
    refine ⟨trivial, h.step hi ?_ h.nodup (h.still hi fun hl ↦ by cases hl)⟩
    exact h.sole.release hi rfl (by simp [disc, Stage.holds])
  | releaseInHandler =>
    cases ha
    exact ⟨trivial, h.keep hi hG.symm rfl rfl rfl⟩

def outline (P : Platform) : Outline (machine P anyAnswer) unclaimed Stage where
  disc := anyhow
  final _ := True
  entryLocal _ := .idle
  spawnLocal := spawnStage
  inv := Inv
  entry_wp _ x _ := entry_wp x
  spawn_wp _ _ op p _ hp := by
    cases op with
    | launch msgId =>
      obtain rfl := Option.some.inj hp
      exact fetchCoroutine_wp (fetch_wp msgId)
    | _ => cases hp
  inv_start s ls x _ h := by
    refine ⟨h.sole.append (by simp [Stage.holds]), h.nodup, fun i hi ↦ ?_⟩
    obtain ⟨l, hl, hfetching⟩ := h.running i hi
    exact ⟨l, getElem?_append_of_some hl, hfetching⟩
  inv_call s ls i l op offer r s' hi hallow hG ha h := inv_call hi hallow hG ha h

/-- In every run that keeps to the condition there is at most one fetch at a time. -/
theorem at_most_one_fetch (P : Platform) (c : Configuration)
    (h : (machine P anyAnswer).Reachable unclaimed ⟨.init, []⟩ c) : Exclusive c.shared := by
  have hinit : Inv .init [] := ⟨.nil, List.nodup_nil, fun i hi ↦ by cases hi⟩
  obtain ⟨ls, -, hinv⟩ := (outline P).reachable h ((outline P).holds_init hinit)
  exact hinv.exclusive

/-! Runs in which the first fetch ends with a hard error -/

abbrev failing (thread times : ℕ) : List (Label monitorSig Input) :=
  calls (.error ⟨"OutOfMemoryError", none⟩) thread times

/-- A fetch fails and releases the flag. -/
def failed : List (Label monitorSig Input) :=
  [.start (.arrival "m1".toList)] ++ failing 0 1 ++ [.start (.notification "m1".toList)] ++ failing 1 4 ++ failing 2 7

/-- Its handler is done before the next notification. -/
def handledFirst : List (Label monitorSig Input) :=
  failed ++ failing 2 1 ++ [.start (.notification "m1".toList)] ++ failing 3 4 ++ failing 4 1

/-- Its handler releases the flag that the next fetch has taken. -/
def handledLate : List (Label monitorSig Input) :=
  failed ++ [.start (.notification "m1".toList)] ++ failing 3 4 ++ failing 4 1 ++ failing 2 1 ++
    [.start (.notification "m1".toList)] ++ failing 5 4 ++ failing 6 1

def unclaimedCheck (s : Shared) (_ : ℕ) : MonitorOp → Bool
  | .releaseInHandler => !s.isProcessing
  | _ => true

theorem unclaimed_of_check {s : Shared} {i : ℕ} {op : MonitorOp} (h : unclaimedCheck s i op = true) :
    unclaimed.call s i op := by
  cases op with
  | releaseInHandler => exact Bool.not_eq_true' _ |>.mp h
  | _ => trivial

abbrev sample : Machine monitorSig Throwable Shared Input := machine asciiPlatform anyAnswer

theorem one_fetch_after_failure : ∃ c, sample.Reachable unclaimed ⟨.init, []⟩ c ∧ c.shared.running = [4] ∧
    Exclusive c.shared := by
  have h : (sample.run unclaimedCheck ⟨.init, []⟩ handledFirst).map (fun c ↦ c.shared.running) = some [4] := by
    decide +kernel
  obtain ⟨c, hc, hrunning⟩ := Option.map_eq_some_iff.mp h
  have hreach := Machine.reachable_of_run (G := unclaimed) _ (fun _ _ ↦ trivial) (fun _ _ _ ↦ unclaimed_of_check) hc
  exact ⟨c, hreach, hrunning, at_most_one_fetch asciiPlatform c hreach⟩

theorem two_fetches_after_failure : ∃ c, sample.Reachable Guard.free ⟨.init, []⟩ c ∧ c.shared.running = [6, 4] ∧
    ¬Exclusive c.shared := by
  have h : (sample.run (fun _ _ _ ↦ true) ⟨.init, []⟩ handledLate).map (fun c ↦ c.shared.running) =
      some [6, 4] := by decide +kernel
  obtain ⟨c, hc, hrunning⟩ := Option.map_eq_some_iff.mp h
  have hreach := Machine.reachable_of_run (G := Guard.free) _ (fun _ _ ↦ trivial) (fun _ _ _ _ ↦ trivial) hc
  refine ⟨c, hreach, hrunning, fun hexclusive ↦ ?_⟩
  have hsingle := hexclusive.single
  rw [hrunning] at hsingle
  simp at hsingle

end Aigentik.SingleFetch
