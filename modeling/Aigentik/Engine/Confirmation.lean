import Aigentik.Engine.Coroutines

namespace Aigentik.Confirmation

open Strings Effects AdminAuthManager MessageEngine Coroutines

variable (P : Platform)

/-- The confirmation `message` names the armed command. -/
def Names (message : Message) (command : Str) : Prop :=
  isConfirm P (trim message.body) ∧
    P.equalsIgnoreCase (trim (confirmed (trim message.body))) (trim command)

/-- The command was executed for a confirmation, from the key that had armed it. -/
def Confirmed (armings : List (Str × Str)) (e : Execution) : Prop :=
  ∃ message a command, e.message = some message ∧ e.arming = some a ∧
    message.sender = e.channelKey ∧ armings[a]? = some (e.channelKey, command) ∧
    Names P message command ∧ e.input = trim command

/-- No login launches a confirmation. -/
def noLoginConfirm : Guard engineSig Shared Message where
  start _ _ := True
  call _ _ op := ∀ message, op = .sync (.launch (.login message)) →
    ¬isConfirm P (trim message.body)

/-- How far a handler is with a pending entry: it may have read one and then
removed it. -/
inductive Stage
  | idle
  | handling (message : Message)
  | looked (message : Message) (command : Str)
  | released (message : Message) (command : Str)

structure Thread where
  holds : Bool
  stage : Stage

abbrev Thread.Holds (l : Thread) : Prop := l.holds

def disc : Discipline engineSig Thread where
  allow
    | l, .sync .lock => l = ⟨false, .idle⟩
    | l, .sync .unlock => l = ⟨true, .idle⟩
    | l, .sync (.begin ..) => l.stage = .idle
    | l, .sync (.passGuard key input) => ∃ message, key = message.sender ∧
      ((l.stage = .handling message ∧ ¬isDestructiveCommand P input) ∨
        ∃ command, l = ⟨true, .released message command⟩ ∧ input = trim command)
    | l, .auth (.pendingGet key) => ∃ message, l = ⟨true, .handling message⟩ ∧
      key = message.sender ∧ isConfirm P (trim message.body)
    | l, .auth (.pendingRemove key) => ∃ message command, l = ⟨true, .looked message command⟩ ∧
      key = message.sender ∧ Names P message command
    | _, .auth (.pendingPut _ command) => ¬isConfirm P (trim command)
    | _, .auth .pendingClear => False
    | _, _ => True
  may
    | _, .auth (.pendingGet _), r => ∀ command, r = some command → ¬isConfirm P (trim command)
    | _, _, _ => True
  next
    | l, .sync .lock, _ => { l with holds := true }
    | l, .sync .unlock, _ => { l with holds := false }
    | l, .sync (.begin _ message), _ => { l with stage := .handling message }
    | l, .sync (.finish _), _ => { l with stage := .idle }
    | l, .sync (.passGuard ..), _ => { l with stage := .idle }
    | ⟨b, .handling message⟩, .auth (.pendingGet _), some command => ⟨b, .looked message command⟩
    | ⟨b, .looked message command⟩, .auth (.pendingRemove _), _ => ⟨b, .released message command⟩
    | l, _, _ => l

/-! What the programs of the engine do to a thread's stage -/

variable (cfg : EngineConfig) (stackDepth : ℕ)

theorem act_wp {l : Thread} (p : Act Unit) : (liftAct p).wp (disc P) (fun _ l' ↦ l' = l) l :=
  (Prog.calls_lift (C := fun op : EngineOp ↦ ∃ o, op = .act o) (fun o ↦ ⟨o, rfl⟩) p).wp_idle
    (by rintro _ ⟨o, rfl⟩; exact ⟨trivial, fun _ ↦ rfl⟩)

theorem idle_of_entryCall {message : Message} {l : Thread} {op : EngineOp} (h : EntryCall message op) :
    (disc P).allow l op ∧ ∀ r, (disc P).next l op r = l := by
  rcases op with op | op | op
  · cases op <;> first | exact h.elim | exact ⟨trivial, fun _ ↦ rfl⟩
  · exact ⟨trivial, fun _ ↦ rfl⟩
  · cases op <;> first | exact h.elim | exact ⟨trivial, fun _ ↦ rfl⟩

theorem released_wp {message : Message} {command : Str} (hc : ¬isConfirm P (trim command)) :
    (handleAdminCommand P cfg stackDepth { message with body := command } true).wp (disc P)
      (fun _ l ↦ l.holds) ⟨true, .released message command⟩ := by
  cases stackDepth with
  | zero => rfl
  | succ depth =>
    rw [handleAdminCommand]
    simp only [hc, Bool.not_true, Bool.false_and]
    refine ⟨⟨message, rfl, .inr ⟨command, rfl, rfl⟩⟩, fun _ _ ↦ ?_⟩
    exact Prog.wp_mono (act_wp P _) fun _ l hl ↦ hl ▸ rfl

/-- A thread with the mutex may handle anything, one without it no confirmation. -/
theorem handleAdminCommand_wp {message : Message} {b : Bool}
    (h : isConfirm P (trim message.body) → b) :
    (handleAdminCommand P cfg stackDepth message false).wp (disc P) (fun _ l ↦ l.holds = b)
      ⟨b, .handling message⟩ := by
  cases stackDepth with
  | zero => rfl
  | succ depth =>
    have done {l : Thread} (p : Act Unit) (hl : l.holds = b) :
        (liftAct p).wp (disc P) (fun _ l ↦ l.holds = b) l :=
      Prog.wp_mono (act_wp P p) fun _ _ h ↦ h ▸ hl
    rw [handleAdminCommand]
    split
    · rename_i hconfirm
      obtain rfl : b = true := h hconfirm
      rw [liftAuth, Prog.wp_bind, Prog.wp_lift]
      refine ⟨⟨message, rfl, rfl, hconfirm⟩, fun pending hmay ↦ ?_⟩
      cases pending with
      | none => exact done _ rfl
      | some pending =>
        simp only [Prog.bind]
        split
        · rename_i heq
          refine ⟨⟨message, pending, rfl, rfl, hconfirm, heq⟩, fun _ _ ↦ ?_⟩
          exact released_wp P cfg depth (hmay pending rfl)
        · exact done _ rfl
    · rename_i hconfirm
      split
      · refine ⟨by simpa [disc] using hconfirm, fun _ _ ↦ done _ rfl⟩
      · rename_i hguard
        refine ⟨⟨message, rfl, .inl ⟨rfl, by simpa using hguard⟩⟩, fun _ _ ↦ done _ rfl⟩

theorem handle_wp {message : Message} {isAdmin b : Bool} (h : isConfirm P (trim message.body) → b) :
    (handle P cfg stackDepth message isAdmin).wp (disc P) (fun _ l ↦ l = ⟨b, .idle⟩) ⟨b, .idle⟩ := by
  have bracket {handler : Handler} {body : Engine Unit}
      (hbody : body.wp (disc P) (fun _ l ↦ l.holds = b) ⟨b, .handling message⟩) :
      (bracket handler message body).wp (disc P) (fun _ l ↦ l = ⟨b, .idle⟩) ⟨b, .idle⟩ := by
    refine ⟨rfl, fun _ _ ↦ (Prog.wp_tryFinally _ _).mpr (Prog.wp_mono hbody ?_)⟩
    rintro o ⟨_, stage⟩ rfl
    exact ⟨trivial, fun _ _ ↦ rfl⟩
  cases isAdmin with
  | true => exact bracket (handleAdminCommand_wp P cfg stackDepth h)
  | false => exact bracket (Prog.wp_mono (act_wp P _) fun _ _ h ↦ h ▸ rfl)

theorem coroutine_wp {task : Task} (h : ∀ message, task = .login message →
    ¬isConfirm P (trim message.body)) :
    (coroutine P cfg stackDepth task).wp (disc P) (fun _ _ ↦ True) ⟨false, .idle⟩ := by
  cases task with
  | login message =>
    exact Prog.wp_mono (handle_wp P cfg stackDepth fun hc ↦ absurd hc (h message rfl)) fun _ _ _ ↦ trivial
  | queued message isAdmin =>
    refine ⟨trivial, fun _ _ ↦ (Prog.wp_tryFinally _ _).mpr ⟨rfl, fun _ _ ↦ ?_⟩⟩
    refine (Prog.wp_tryFinally _ _).mpr
      (Prog.wp_mono (handle_wp P cfg stackDepth fun _ ↦ rfl) ?_)
    intro o l heq
    subst heq
    refine ⟨rfl, fun _ _ ↦ ?_⟩
    cases o <;> exact ⟨trivial, fun _ _ ↦ trivial⟩

/-! The invariant -/

def Unused (s : Shared) (a : ℕ) : Prop := ∀ e ∈ s.executions, e.arming ≠ some a

/-- What the shared state holds for a thread, by the stage it is in. -/
def ThreadOk (s : Shared) (i : ℕ) (l : Thread) : Prop :=
  match l.stage with
  | .idle => True
  | .handling message => s.messageOf i = some message
  | .looked message command => l.holds ∧ s.messageOf i = some message ∧
      isConfirm P (trim message.body) ∧ ∃ a, s.seen i = some a ∧
        s.armings[a]? = some (message.sender, command) ∧ Unused s a
  | .released message command => l.holds ∧ s.messageOf i = some message ∧
      Names P message command ∧ ∃ a, s.seen i = some a ∧
        s.armings[a]? = some (message.sender, command) ∧ Unused s a ∧
          ∀ key command', s.pending key ≠ some (command', a)

/-- A thread is not disturbed by a step that keeps what it has read. -/
theorem ThreadOk.frame {s s' : Shared} {i : ℕ} {l : Thread} (h : ThreadOk P s i l)
    (hmsg : s'.messageOf i = s.messageOf i) (hseen : s'.seen i = s.seen i)
    (harm : ∀ a x, s.armings[a]? = some x → s'.armings[a]? = some x ∧
      (l.holds → Unused s a → Unused s' a) ∧
      ∀ key command, s'.pending key = some (command, a) → s.pending key = some (command, a)) :
    ThreadOk P s' i l := by
  obtain ⟨holds, stage⟩ := l
  cases stage with
  | idle => trivial
  | handling message => exact hmsg.trans h
  | looked message command =>
    obtain ⟨hl, hm, hc, a, hs, ha, hu⟩ := h
    obtain ⟨ha', hu', -⟩ := harm a _ ha
    exact ⟨hl, hmsg.trans hm, hc, a, hseen.trans hs, ha', hu' hl hu⟩
  | released message command =>
    obtain ⟨hl, hm, hc, a, hs, ha, hu, hp⟩ := h
    obtain ⟨ha', hu', hp'⟩ := harm a _ ha
    exact ⟨hl, hmsg.trans hm, hc, a, hseen.trans hs, ha', hu' hl hu,
      fun key command' hk ↦ hp key command' (hp' key command' hk)⟩

theorem Confirmed.mono {armings armings' : List (Str × Str)} {e : Execution}
    (h : Confirmed P armings e) (ha : ∀ (a : ℕ) (x : Str × Str), armings[a]? = some x → armings'[a]? = some x) :
    Confirmed P armings' e := by
  obtain ⟨message, a, command, hm, he, hk, harm, hn, hi⟩ := h
  exact ⟨message, a, command, hm, he, hk, ha _ _ harm, hn, hi⟩

structure Inv (s : Shared) (ls : List Thread) : Prop where
  sole : Sole Thread.Holds s.locked ls
  threads : ∀ (i : ℕ) (l : Thread), ls[i]? = some l → ThreadOk P s i l
  entries : ∀ key command a, s.pending key = some (command, a) →
    s.armings[a]? = some (key, command) ∧ ¬isConfirm P (trim command) ∧ Unused s a
  confirmed : ∀ e ∈ s.executions, Confirmed P s.armings e
  nodup : (s.executions.map Execution.arming).Nodup

namespace Inv

variable {P} {s s' : Shared} {ls new : List Thread} {i : ℕ} {l l' : Thread} {message : Message}
  {key command : Str}

theorem threads_step (h : Inv P s ls) (hnew : ∀ x ∈ new, x = ⟨false, .idle⟩)
    (hown : ThreadOk P s' i l') (hother : ∀ (j : ℕ) (x : Thread), j ≠ i → ls[j]? = some x →
      ThreadOk P s j x → ThreadOk P s' j x) :
    ∀ (j : ℕ) (x : Thread), (ls.set i l' ++ new)[j]? = some x → ThreadOk P s' j x := by
  intro j x hj
  rcases getElem?_step hj with ⟨rfl, rfl⟩ | ⟨hne, hj⟩ | ⟨-, hx⟩
  · exact hown
  · exact hother j x hne hj (h.threads j x hj)
  · rw [hnew x hx]
    trivial

theorem sole_append (hnew : ∀ x ∈ new, x = ⟨false, .idle⟩) {locked : Bool} {ls : List Thread}
    (h : Sole Thread.Holds locked ls) : Sole Thread.Holds locked (ls ++ new) := by
  refine h.append fun x hx ↦ ?_
  rw [hnew x hx]
  exact nofun

/-- A step of thread `i` that arms and executes nothing. -/
theorem quiet_step (h : Inv P s ls) (hsole : Sole Thread.Holds s'.locked (ls.set i l'))
    (hnew : ∀ x ∈ new, x = ⟨false, .idle⟩) (harm : s'.armings = s.armings)
    (hexec : s'.executions = s.executions)
    (hpending : ∀ key x, s'.pending key = some x → s.pending key = some x)
    (hown : ThreadOk P s' i l')
    (hother : ∀ j, j ≠ i → s'.messageOf j = s.messageOf j ∧ s'.seen j = s.seen j) :
    Inv P s' (ls.set i l' ++ new) := by
  have hunused {a : ℕ} (hu : Unused s a) : Unused s' a := by rwa [Unused, hexec]
  refine ⟨sole_append hnew hsole, h.threads_step hnew hown fun j x hne _ hx ↦ ?_, ?_, ?_, ?_⟩
  · refine hx.frame P (hother j hne).1 (hother j hne).2 fun a y ha ↦ ⟨harm ▸ ha, fun _ ↦ hunused, ?_⟩
    exact fun key command ↦ hpending key _
  · intro key command a hk
    obtain ⟨ha, hc, hu⟩ := h.entries key command a (hpending key _ hk)
    exact ⟨harm ▸ ha, hc, hunused hu⟩
  · rw [hexec, harm]
    exact h.confirmed
  · rw [hexec]
    exact h.nodup

theorem arm (h : Inv P s ls) (hc : ¬isConfirm P (trim command)) :
    Inv P { s with
      pending := Function.update s.pending key (some (command, s.armings.length))
      armings := s.armings ++ [(key, command)] } ls := by
  have hlt {a : ℕ} {x : Str × Str} (ha : s.armings[a]? = some x) : a < s.armings.length :=
    (List.getElem?_eq_some_iff.mp ha).1
  have hentry {key' command' : Str} {a : ℕ}
      (hk : Function.update s.pending key (some (command, s.armings.length)) key' =
        some (command', a)) :
      (key' = key ∧ command' = command ∧ a = s.armings.length) ∨
        s.pending key' = some (command', a) := by
    rw [Function.update_apply] at hk
    split at hk
    · cases hk
      exact .inl ⟨‹_›, rfl, rfl⟩
    · exact .inr hk
  refine ⟨h.sole, fun j x hj ↦ ?_, fun key' command' a hk ↦ ?_, fun e he ↦ ?_, h.nodup⟩
  · refine (h.threads j x hj).frame P rfl rfl fun a y ha ↦
      ⟨getElem?_append_of_some ha, fun _ ↦ id, fun key' command' hk ↦ ?_⟩
    rcases hentry hk with ⟨-, -, rfl⟩ | hk
    · exact absurd (hlt ha) (lt_irrefl _)
    · exact hk
  · rcases hentry hk with ⟨rfl, rfl, rfl⟩ | hk
    · refine ⟨by simp, hc, fun e he heq ↦ ?_⟩
      obtain ⟨_, a, _, -, hea, -, ha, -⟩ := h.confirmed e he
      cases hea.symm.trans heq
      exact lt_irrefl _ (hlt ha)
    · obtain ⟨ha, hc', hu⟩ := h.entries key' command' a hk
      exact ⟨getElem?_append_of_some ha, hc', hu⟩
  · exact (h.confirmed e he).mono P fun a x ↦ getElem?_append_of_some

theorem execute (h : Inv P s ls) (hi : ls[i]? = some ⟨true, .released message command⟩) :
    Inv P (s.execute P i message.sender (trim command)) (ls.set i ⟨true, .idle⟩) := by
  have hsole : Sole Thread.Holds s.locked (ls.set i ⟨true, .idle⟩) := h.sole.keep hi fun _ ↦ rfl
  unfold Shared.execute
  split
  · obtain ⟨-, hmsg, hnames, a, hseen, harm, hunused, hpending⟩ := h.threads i _ hi
    refine ⟨hsole, ?_, fun key' command' a' hk ↦ ?_, fun e he ↦ ?_, ?_⟩
    · rw [← List.append_nil (ls.set i _)]
      refine h.threads_step (by simp) trivial fun j x hne hj hx ↦ ?_
      refine hx.frame P rfl rfl fun a' y ha ↦ ⟨ha, fun hholds ↦ ?_, fun _ _ ↦ id⟩
      exact absurd ((h.sole i _ hi rfl).2 j x hj hholds) hne
    · obtain ⟨ha, hc, hu⟩ := h.entries key' command' a' hk
      refine ⟨ha, hc, fun e he ↦ ?_⟩
      rcases List.mem_append.mp he with he | he
      · exact hu e he
      · rw [List.mem_singleton.mp he, hseen]
        intro h'
        cases h'
        exact hpending _ _ hk
    · rcases List.mem_append.mp he with he | he
      · exact h.confirmed e he
      · rw [List.mem_singleton.mp he]
        exact ⟨message, a, command, hmsg, hseen, rfl, harm, hnames, rfl⟩
    · simp only [List.map_append, List.map_cons, List.map_nil, hseen]
      refine List.nodup_append.mpr ⟨h.nodup, by simp, fun x hx y hy ↦ ?_⟩
      obtain ⟨e, he, rfl⟩ := List.mem_map.mp hx
      exact List.mem_singleton.mp hy ▸ hunused e he
  · rw [← List.append_nil (ls.set i _)]
    exact h.quiet_step hsole (by simp) rfl rfl (fun _ _ ↦ id) trivial fun _ _ ↦ ⟨rfl, rfl⟩

end Inv

theorem lookup_filter_ne {β : Type} {i j : ℕ} (h : j ≠ i) (rs : List (ℕ × β)) :
    (rs.filter fun r ↦ r.1 ≠ i).lookup j = rs.lookup j := by
  induction rs with
  | nil => rfl
  | cons r rs ih =>
    obtain ⟨k, x⟩ := r
    by_cases hk : k = i
    · subst hk
      have hjk : (j == k) = false := beq_eq_false_iff_ne.mpr h
      simpa [List.lookup_cons, hjk] using ih
    · simp only [List.filter_cons, hk, ne_eq, not_false_eq_true, decide_true, if_true,
        List.lookup_cons]
      rw [← ih]

theorem Inv.call {s s' : Shared} {ls : List Thread} {i : ℕ} {l : Thread} {op : EngineOp}
    {offer r : engineSig.Resp op} (h : Inv P s ls) (hi : ls[i]? = some l)
    (hallow : (disc P).allow l op)
    (hact : Coroutines.act P i op offer s = some (r, s')) :
    (disc P).may l op r ∧ Inv P s' (ls.set i ((disc P).next l op r) ++
      ((spawned P cfg stackDepth op).map fun _ ↦ (⟨false, .idle⟩ : Thread)).toList) := by
  have hnew : ∀ x ∈ ((spawned P cfg stackDepth op).map fun _ ↦ (⟨false, .idle⟩ : Thread)).toList,
      x = ⟨false, .idle⟩ := by simp
  have hown := h.threads i l hi
  have unchanged : Inv P s (ls.set i l ++
      ((spawned P cfg stackDepth op).map fun _ ↦ (⟨false, .idle⟩ : Thread)).toList) :=
    h.quiet_step (h.sole.keep hi id) hnew rfl rfl (fun _ _ ↦ id) hown fun _ _ ↦ ⟨rfl, rfl⟩
  rcases op with op | op | op
  · cases op with
    | pendingGet key =>
      obtain ⟨message, rfl, rfl, hc⟩ := hallow
      cases hact
      have hseen (x : Option ℕ) (j : ℕ) (hj : j ≠ i) : Function.update s.seen i x j = s.seen j :=
        Function.update_of_ne hj _ _
      cases hp : s.pending message.sender with
      | none =>
        refine ⟨fun command hcommand ↦ ?_, h.quiet_step (h.sole.keep hi id) hnew rfl rfl (fun _ _ ↦ id) hown ?_⟩
        · cases hcommand
        · exact fun j hj ↦ ⟨rfl, hseen _ j hj⟩
      | some entry =>
        obtain ⟨command, a⟩ := entry
        obtain ⟨harm, hconf, hunused⟩ := h.entries _ _ _ hp
        refine ⟨?_, h.quiet_step (h.sole.keep hi fun _ ↦ rfl) hnew rfl rfl (fun _ _ ↦ id) ?_ ?_⟩
        · intro command' h'
          cases h'
          exact hconf
        · exact ⟨rfl, hown, hc, a, Function.update_self .., harm, hunused⟩
        · exact fun j hj ↦ ⟨rfl, hseen _ j hj⟩
    | pendingRemove key =>
      obtain ⟨message, command, rfl, rfl, hnames⟩ := hallow
      cases hact
      obtain ⟨hholds, hmsg, hc, a, hseen, harm, hunused⟩ := hown
      have hremoved {key : Str} {x : Str × ℕ}
          (hk : Function.update s.pending message.sender none key = some x) :
          key ≠ message.sender ∧ s.pending key = some x := by
        rw [Function.update_apply] at hk
        split at hk
        · cases hk
        · exact ⟨‹_›, hk⟩
      refine ⟨trivial, h.quiet_step (h.sole.keep hi fun _ ↦ rfl) hnew rfl rfl
        (fun _ _ hk ↦ (hremoved hk).2) ?_ fun _ _ ↦ ⟨rfl, rfl⟩⟩
      refine ⟨hholds, hmsg, hnames, a, hseen, harm, hunused, fun key command' hk ↦ ?_⟩
      obtain ⟨hne, hk⟩ := hremoved hk
      have hkey := (h.entries _ _ _ hk).1
      rw [harm] at hkey
      cases hkey
      exact hne rfl
    | pendingPut key command =>
      cases hact
      refine ⟨trivial, ?_⟩
      have hset : ls.set i l = ls := set_of_getElem? hi
      simpa [disc, spawned, hset] using h.arm hallow
    | pendingClear => exact hallow.elim
    | _ =>
      cases hact
      exact ⟨trivial, unchanged⟩
  · cases hact
    exact ⟨trivial, unchanged⟩
  · cases op with
    | lock =>
      obtain rfl : l = ⟨false, .idle⟩ := hallow
      simp only [Coroutines.act] at hact
      split at hact
      · cases hact
      · rename_i hfree
        cases hact
        have hsole := h.sole
        rw [Bool.not_eq_true] at hfree
        rw [hfree] at hsole
        exact ⟨trivial, h.quiet_step hsole.acquire hnew rfl rfl (fun _ _ ↦ id) trivial
          fun _ _ ↦ ⟨rfl, rfl⟩⟩
    | unlock =>
      obtain rfl : l = ⟨true, .idle⟩ := hallow
      cases hact
      exact ⟨trivial, h.quiet_step (h.sole.release hi rfl (by simp [disc])) hnew rfl rfl (fun _ _ ↦ id) trivial
        fun _ _ ↦ ⟨rfl, rfl⟩⟩
    | begin handler message =>
      cases hact
      refine ⟨trivial, h.quiet_step (h.sole.keep hi id) hnew rfl rfl (fun _ _ ↦ id) ?_ fun j hj ↦ ?_⟩
      · simp [disc, ThreadOk, Shared.messageOf]
      · have hji : (j == i) = false := beq_eq_false_iff_ne.mpr hj
        simp [Shared.messageOf, List.lookup_cons, hji]
    | finish handler =>
      cases hact
      refine ⟨trivial, h.quiet_step (h.sole.keep hi id) hnew rfl rfl (fun _ _ ↦ id) trivial fun j hj ↦ ?_⟩
      exact ⟨congrArg (Option.map Prod.snd) (lookup_filter_ne hj _), rfl⟩
    | passGuard key input =>
      cases hact
      obtain ⟨message, rfl, ⟨hstage, hsafe⟩ | ⟨command, rfl, rfl⟩⟩ := hallow
      · have hnone : s.execute P i message.sender input = s := by
          unfold Shared.execute
          rw [if_neg hsafe]
        rw [hnone]
        exact ⟨trivial, h.quiet_step (h.sole.keep hi id) hnew rfl rfl (fun _ _ ↦ id) trivial
          fun _ _ ↦ ⟨rfl, rfl⟩⟩
      · simpa [disc, spawned] using h.execute hi
    | _ =>
      cases hact
      exact ⟨trivial, unchanged⟩

def outline : Outline (machine P cfg stackDepth) (noLoginConfirm P) Thread where
  disc := disc P
  final _ := True
  entryLocal _ := ⟨false, .idle⟩
  spawnLocal _ := ⟨false, .idle⟩
  inv := Inv P
  entry_wp _ message _ :=
    Prog.wp_mono ((onMessageReceived_calls P cfg message).wp_idle fun _ ↦ idle_of_entryCall P)
      fun _ _ _ ↦ trivial
  spawn_wp s i op p hG hp := by
    rcases op with op | op | op <;> try cases hp
    cases op <;> cases hp
    exact coroutine_wp P cfg stackDepth fun message hm ↦ hG message (hm ▸ rfl)
  inv_start s ls message _ h := by
    refine ⟨Inv.sole_append (by simp) h.sole, fun j x hj ↦ ?_, h.entries, h.confirmed, h.nodup⟩
    rw [List.getElem?_append] at hj
    split at hj
    · exact h.threads j x hj
    · obtain rfl := List.mem_singleton.mp (List.mem_of_getElem? hj)
      trivial
  inv_call s ls i l op offer r s' hi hallow _ hact h := h.call P cfg stackDepth hi hallow hact

/-- In every state of a run in which no login launches a confirmation, each
destructive command behind the guard was confirmed, and each arming was used at
most once. -/
theorem destructive_only_confirmed {c : Configuration}
    (h : (machine P cfg stackDepth).Reachable (noLoginConfirm P) ⟨.init, []⟩ c) :
    (∀ e ∈ c.shared.executions, Confirmed P c.shared.armings e) ∧
      (c.shared.executions.map Execution.arming).Nodup := by
  have hinit : Inv P .init [] := ⟨.nil, by simp, by simp [Shared.init], by simp [Shared.init],
    by simp [Shared.init]⟩
  obtain ⟨ls, -, hinv⟩ := (outline P cfg stackDepth).reachable h (Outline.holds_init _ hinit)
  exact ⟨hinv.confirmed, hinv.nodup⟩

/-! Runs on one arming -/

def chatText (body : String) : Message := ⟨"m", .chat, "owner", none, body, [], [], 0, []⟩

def loginText (command : String) : Message :=
  ⟨"n", .notification, "+15550001111", none, "Admin: Owner\nPassword: s3cret\n" ++ command, [], [], 0, []⟩

def execution (message : Message) : Execution := ⟨some message, message.sender, "delete all", some 0⟩

/-- The chat arms a command and confirms it. -/
def confirmedOnce : List (Label engineSig Message) :=
  [.start (chatText "delete all")] ++ calls 0 2 ++ calls 1 8 ++
    [.start (chatText "confirm: delete all")] ++ calls 2 2 ++ calls 3 6

/-- A login arms a command, and two logins confirm it at the same time. -/
def confirmedTwice : List (Label engineSig Message) :=
  [.start (loginText "delete all")] ++ calls 0 6 ++ calls 1 5 ++
    [.start (loginText "confirm: delete all"), .start (loginText "confirm: delete all")] ++
    calls 2 6 ++ calls 3 6 ++ calls 4 2 ++ calls 5 2 ++ calls 4 2 ++ calls 5 2

theorem chat_confirms_once : ∃ c, sample.run (fun _ _ ↦ noLogin) ⟨.init, []⟩ confirmedOnce = some c ∧
    c.shared.executions = [execution (chatText "confirm: delete all")] ∧
      (∀ e ∈ c.shared.executions, Confirmed asciiPlatform c.shared.armings e) ∧
      (c.shared.executions.map Execution.arming).Nodup := by
  have h : (sample.run (fun _ _ ↦ noLogin) ⟨.init, []⟩ confirmedOnce).map
      (fun c ↦ c.shared.executions) = some [execution (chatText "confirm: delete all")] := by
    decide +kernel
  obtain ⟨c, hc, hexec⟩ := Option.map_eq_some_iff.mp h
  refine ⟨c, hc, hexec, destructive_only_confirmed asciiPlatform ⟨[], "Owner", "Aigentik"⟩ 3 ?_⟩
  refine Machine.reachable_of_run _ (fun _ _ ↦ trivial) (fun _ _ op hop message heq ↦ ?_) hc
  simp [heq, noLogin] at hop

theorem one_arming_executed_twice :
    ∃ c, sample.run (fun _ _ _ ↦ true) ⟨.init, []⟩ confirmedTwice = some c ∧
      c.shared.armings = [("+15550001111".toList, "delete all".toList)] ∧
      ¬(c.shared.executions.map Execution.arming).Nodup := by
  have h : (sample.run (fun _ _ _ ↦ true) ⟨.init, []⟩ confirmedTwice).map
      (fun c ↦ (c.shared.armings, c.shared.executions.map Execution.arming)) =
      some ([("+15550001111".toList, "delete all".toList)], [some 0, some 0]) := by decide +kernel
  obtain ⟨c, hc, hpair⟩ := Option.map_eq_some_iff.mp h
  obtain ⟨harm, hexec⟩ := Prod.mk.inj hpair
  exact ⟨c, hc, harm, by simp [hexec]⟩

end Aigentik.Confirmation
