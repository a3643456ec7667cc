import Aigentik.Engine.World

namespace Aigentik.Cancellation

open Strings Effects AdminAuthManager MessageEngine World

variable (P : Platform) (cfg : EngineConfig)

def spawned (stackDepth : ℕ) : EngineOp → Option (Engine Unit)
  | .sync (.launch task) => some (coroutine P cfg stackDepth task)
  | _ => none

/-- Messages handled one at a time. -/
def serve (stackDepth : ℕ) : List Message → Engine Unit
  | [] => return
  | message :: rest => do
    ((onMessageReceived P cfg message).inline (spawned P cfg stackDepth)).tryCatch fun _ ↦ return
    serve stackDepth rest

/-- The event arms a command for `key`, starts the handling of a command of `key`
other than a confirmation, or ends an expired session of `key`. -/
def Disturbs (key : Str) : EngineOp → Prop
  | .sync (.begin .admin message) => message.sender = key ∧ ¬isConfirm P (trim message.body)
  | .auth (.pendingPut key' _) | .auth (.sessionRemove key') => key' = key
  | _ => False

/-- The last arming of the command was not disturbed since. -/
def Fresh (key command : Str) (log : Log) : Prop :=
  ∃ pre post, log = pre ++ ⟨.auth (.pendingPut key command), ()⟩ :: post ∧
    ∀ e ∈ post, ¬Disturbs P key e.1

/-- A destructive command passes the guard only if it is fresh. -/
def PassesFresh (log : Log) : EngineOp → Prop
  | .sync (.passGuard key command) => isDestructiveCommand P command → Fresh P key command log
  | _ => True

def Cancels (log : Log) : Prop := Along (fun before e ↦ PassesFresh P before e.1) [] log

/-- While a command of its key is pending, no other command passes the guard and
no session is found expired. -/
def Careful (log : Log) : EngineOp → Prop
  | .sync (.passGuard key command) => isDestructiveCommand P command ∨
      pendingAfter (fun _ ↦ none) log key = none
  | .auth (.sessionRemove key) => pendingAfter (fun _ ↦ none) log key = none
  | _ => True

variable {P} {log : Log} {key command : Str} {e : Event engineSig}

theorem Fresh.append (h : Fresh P key command log) (he : ¬Disturbs P key e.1) :
    Fresh P key command (log ++ [e]) := by
  obtain ⟨pre, post, rfl, hpost⟩ := h
  refine ⟨pre, post ++ [e], by simp, fun e' he' ↦ ?_⟩
  rcases List.mem_append.mp he' with he' | he'
  · exact hpost e' he'
  · rwa [List.mem_singleton.mp he']

/-- The pending commands of the keys other than `skip` are fresh. -/
def FreshBut (P : Platform) (skip : Option Str) (log : Log) : Prop :=
  ∀ key command, some key ≠ skip → pendingAfter (fun _ ↦ none) log key = some command →
    Fresh P key command log ∧ trim command = command ∧ ¬isConfirm P command

abbrev Intact (P : Platform) (log : Log) : Prop := FreshBut P none log

/-- Calls that neither touch the pending commands nor disturb any key. -/
def Neutral (P : Platform) (op : EngineOp) : Prop :=
  (∀ pending r, record pending ⟨op, r⟩ = pending) ∧ ∀ key, ¬Disturbs P key op

theorem FreshBut.append {skip : Option Str} (h : FreshBut P skip log) (he : Neutral P e.1) :
    FreshBut P skip (log ++ [e]) := by
  intro key command hskip hp
  have hrec : pendingAfter (fun _ ↦ none) (log ++ [e]) = pendingAfter (fun _ ↦ none) log := by
    simpa using he.1 _ e.2
  obtain ⟨hf, hrest⟩ := h key command hskip (by rwa [hrec] at hp)
  exact ⟨hf.append (he.2 key), hrest⟩

/-- An expired session, while no command of its key is pending. -/
theorem Intact.expire {r : Unit} (h : Intact P log)
    (hp : pendingAfter (fun _ ↦ none) log key = none) :
    Intact P (log ++ [⟨.auth (.sessionRemove key), r⟩]) := by
  intro key' command hskip hp'
  replace hp' : pendingAfter (fun _ ↦ none) log key' = some command := by simpa [record] using hp'
  obtain ⟨hf, hrest⟩ := h key' command hskip hp'
  refine ⟨hf.append fun hkey ↦ ?_, hrest⟩
  rw [show key' = key from hkey.symm, hp] at hp'
  cases hp'

theorem Intact.begin {message : Message} {r : Unit} (h : Intact P log) :
    FreshBut P (some message.sender) (log ++ [⟨.sync (.begin .admin message), r⟩]) := by
  intro key command hskip hp
  obtain ⟨hf, hrest⟩ := h key command nofun (by simpa [record] using hp)
  exact ⟨hf.append fun hd ↦ hskip (congrArg some hd.1.symm), hrest⟩

theorem FreshBut.arm {r : Unit} (h : FreshBut P (some key) log) (ht : trim command = command)
    (hc : ¬isConfirm P command) : Intact P (log ++ [⟨.auth (.pendingPut key command), r⟩]) := by
  intro key' command' _ hp
  simp only [pendingAfter_append, pendingAfter_cons, pendingAfter_nil, record,
    Function.update_apply] at hp
  split at hp
  · rename_i hkey
    cases hp
    exact ⟨⟨log, [], by rw [hkey], by simp⟩, ht, hc⟩
  · rename_i hkey
    obtain ⟨hf, hrest⟩ := h key' command' (by simpa using hkey) hp
    exact ⟨hf.append fun hd ↦ hkey hd.symm, hrest⟩

theorem FreshBut.intact (h : FreshBut P (some key) log)
    (hp : pendingAfter (fun _ ↦ none) log key = none) : Intact P log := by
  intro key' command _ hp'
  refine h key' command (fun heq ↦ ?_) hp'
  rw [Option.some.inj heq, hp] at hp'
  cases hp'

theorem Intact.release {r : Unit} (h : Intact P log) :
    Intact P (log ++ [⟨.auth (.pendingRemove key), r⟩]) := by
  intro key' command hskip hp
  simp only [pendingAfter_append, pendingAfter_cons, pendingAfter_nil, record,
    Function.update_apply] at hp
  split at hp
  · cases hp
  · obtain ⟨hf, hrest⟩ := h key' command hskip hp
    exact ⟨hf.append id, hrest⟩

/-! The programs of the engine -/

abbrev world (rest : Answers engineSig) : Answers engineSig := withPending (fun _ ↦ none) rest

abbrev disc (P : Platform) (rest : Answers engineSig) : Discipline engineSig Log :=
  .history (PassesFresh P) fun log op r ↦ r = world rest log op ∧ Careful P log op

variable {cfg} {rest : Answers engineSig} {stackDepth : ℕ} {message : Message}

theorem neutral_act (op : ActOp) : Neutral P (.act op) := ⟨fun _ _ ↦ rfl, fun _ ↦ id⟩

theorem act_wp {I : Log → Prop} (hI : ∀ log e, Neutral P e.1 → I log → I (log ++ [e])) (p : Act Unit)
    (h : I log) : (liftAct p).wp (disc P rest) (fun _ ↦ I) log := by
  have hcalls : (liftAct p).Calls fun op ↦ ∃ o, op = EngineOp.act o :=
    Prog.calls_lift (fun o ↦ ⟨o, rfl⟩) p
  refine hcalls.wp ?_ h
  intro log op hlog hop
  obtain ⟨o, rfl⟩ := hop
  exact ⟨trivial, fun r _ ↦ hI log _ (neutral_act o) hlog⟩

theorem intact_act_wp (p : Act Unit) (h : Intact P log) :
    (liftAct p).wp (disc P rest) (fun _ ↦ Intact P) log :=
  act_wp (fun _ _ he hlog ↦ hlog.append he) p h

theorem neutral_passGuard (key input : Str) : Neutral P (.sync (.passGuard key input)) :=
  ⟨fun _ _ ↦ rfl, fun _ ↦ id⟩

/-- A command that is no confirmation: it is armed, or it passes the guard. -/
theorem command_wp (hc : ¬isConfirm P (trim message.body)) (h : FreshBut P (some message.sender) log) :
    (handleAdminCommand P cfg (stackDepth + 1) message false).wp (disc P rest)
      (fun _ ↦ Intact P) log := by
  rw [handleAdminCommand]
  simp only [hc, Bool.not_false, Bool.true_and, Bool.false_eq_true, if_false]
  split
  · exact ⟨trivial, fun _ _ ↦ intact_act_wp _ (h.arm (trim_trim _) hc)⟩
  · rename_i hsafe
    refine ⟨fun hd ↦ absurd hd hsafe, fun _ hmay ↦ ?_⟩
    have hnone := hmay.2.resolve_left hsafe
    exact intact_act_wp _ ((h.intact hnone).append (neutral_passGuard _ _))

/-- A confirmation: the command it releases is still fresh at the guard. -/
theorem confirm_wp (hc : isConfirm P (trim message.body)) (h : Intact P log) :
    (handleAdminCommand P cfg (stackDepth + 1) message false).wp (disc P rest)
      (fun _ ↦ Intact P) log := by
  rw [handleAdminCommand]
  simp only [hc, if_true]
  rw [liftAuth, Prog.wp_bind, Prog.wp_lift]
  refine ⟨trivial, fun entry hmay ↦ ?_⟩
  have hget : entry = pendingAfter (fun _ ↦ none) log message.sender := hmay.1
  have hneutral : Neutral P (.auth (.pendingGet message.sender)) := ⟨fun _ _ ↦ rfl, fun _ ↦ id⟩
  have hread := h.append (e := ⟨.auth (.pendingGet message.sender), entry⟩) hneutral
  cases entry with
  | none => exact intact_act_wp _ hread
  | some command =>
    have hpending : pendingAfter (fun _ ↦ none) log message.sender = some command := hget.symm
    have hintact := h message.sender command (Option.some_ne_none _) hpending
    have hfresh := hintact.1
    have htrim := hintact.2.1
    have hplain := hintact.2.2
    simp only [Prog.bind]
    by_cases hequal : P.equalsIgnoreCase (trim (confirmed (trim message.body))) (trim command)
    · rw [if_pos hequal]
      refine ⟨trivial, fun _ _ ↦ ?_⟩
      change (handleAdminCommand P cfg stackDepth { message with body := command } true).wp _ _ _
      have hreleased : Intact P (log ++ [⟨.auth (.pendingGet message.sender), some command⟩] ++
          [⟨.auth (.pendingRemove message.sender), ()⟩]) := Intact.release hread
      have hstill : Fresh P message.sender command
          (log ++ [⟨.auth (.pendingGet message.sender), some command⟩] ++
            [⟨.auth (.pendingRemove message.sender), ()⟩]) := (hfresh.append id).append id
      cases stackDepth with
      | zero => exact hreleased
      | succ depth =>
        rw [handleAdminCommand]
        simp only [htrim, hplain, Bool.false_eq_true, Bool.not_true, Bool.false_and, if_false]
        refine ⟨fun _ ↦ by rw [htrim]; exact hstill, fun _ _ ↦ ?_⟩
        exact intact_act_wp _ (hreleased.append (neutral_passGuard _ _))
    · rw [if_neg hequal]
      exact intact_act_wp _ hread

theorem bracket_wp {handler : Handler} {body : Engine Unit}
    (hbody : body.wp (disc P rest) (fun _ ↦ Intact P)
      (log ++ [⟨.sync (.begin handler message), ()⟩])) :
    (bracket handler message body).wp (disc P rest) (fun _ ↦ Intact P) log := by
  refine ⟨trivial, fun _ _ ↦ (Prog.wp_tryFinally _ _).mpr (Prog.wp_mono hbody ?_)⟩
  intro o log hlog
  refine ⟨trivial, fun _ _ ↦ ?_⟩
  cases o <;> exact hlog.append ⟨fun _ _ ↦ rfl, fun _ ↦ id⟩

theorem handle_wp (isAdmin : Bool) (h : Intact P log) :
    (handle P cfg (stackDepth + 1) message isAdmin).wp (disc P rest) (fun _ ↦ Intact P) log := by
  cases isAdmin with
  | true =>
    refine bracket_wp ?_
    by_cases hc : isConfirm P (trim message.body)
    · exact confirm_wp hc (h.append ⟨fun _ _ ↦ rfl, fun key hd ↦ hd.2 hc⟩)
    · exact command_wp hc h.begin
  | false => exact bracket_wp (intact_act_wp _ (h.append ⟨fun _ _ ↦ rfl, fun _ ↦ id⟩))

theorem coroutine_wp (task : Task) (h : Intact P log) :
    (coroutine P cfg (stackDepth + 1) task).wp (disc P rest) (fun _ ↦ Intact P) log := by
  have neutral {op : SyncOp} (hop : Neutral P (.sync op)) {log : Log} (h : Intact P log) {r} :
      Intact P (log ++ [⟨.sync op, r⟩]) := h.append hop
  cases task with
  | login message => exact handle_wp true h
  | queued message isAdmin =>
    refine ⟨trivial, fun _ _ ↦ (Prog.wp_tryFinally _ _).mpr ⟨trivial, fun _ _ ↦ ?_⟩⟩
    have hlocked := (h.append (e := ⟨.sync .acquireWakeLock, ()⟩) ⟨fun _ _ ↦ rfl, fun _ ↦ id⟩).append
      (e := ⟨.sync .lock, ()⟩) ⟨fun _ _ ↦ rfl, fun _ ↦ id⟩
    refine (Prog.wp_tryFinally _ _).mpr (Prog.wp_mono (handle_wp isAdmin hlocked) fun o log hlog ↦ ?_)
    refine ⟨trivial, fun _ _ ↦ ?_⟩
    cases o <;> refine ⟨trivial, fun _ _ ↦ ?_⟩ <;>
      exact (hlog.append (e := ⟨.sync .unlock, ()⟩) ⟨fun _ _ ↦ rfl, fun _ ↦ id⟩).append
        ⟨fun _ _ ↦ rfl, fun _ ↦ id⟩

theorem entryCall_wp {message : Message} {op : EngineOp} (h : Intact P log) (hop : EntryCall message op) :
    (disc P rest).allow log op ∧ ∀ r, (disc P rest).may log op r →
      Intact P ((disc P rest).next log op r) := by
  have neutral (hn : Neutral P op) (hall : PassesFresh P log op) :
      (disc P rest).allow log op ∧ ∀ r, (disc P rest).may log op r →
        Intact P ((disc P rest).next log op r) := ⟨hall, fun r _ ↦ h.append hn⟩
  rcases op with op | op | op
  · cases op with
    | sessionRemove key => exact ⟨trivial, fun _ hmay ↦ h.expire hmay.2⟩
    | pendingGet _ | pendingPut _ _ | pendingRemove _ | pendingClear => exact hop.elim
    | _ => exact neutral ⟨fun _ _ ↦ rfl, fun _ ↦ id⟩ trivial
  · exact neutral (neutral_act op) trivial
  · cases op with
    | isPaused => exact neutral ⟨fun _ _ ↦ rfl, fun _ ↦ id⟩ trivial
    | launch task => exact neutral ⟨fun _ _ ↦ rfl, fun _ ↦ id⟩ trivial
    | _ => exact hop.elim

theorem serve_wp (messages : List Message) (h : Intact P log) :
    (serve P cfg (stackDepth + 1) messages).wp (disc P rest) (fun _ ↦ Intact P) log := by
  induction messages generalizing log with
  | nil => exact h
  | cons message messages ih =>
    have hentry : ((onMessageReceived P cfg message).inline (spawned P cfg (stackDepth + 1))).wp
        (disc P rest) (fun _ ↦ Intact P) log := by
      refine (onMessageReceived_calls P cfg message).wp_inline
        (fun log op hlog hop ↦ entryCall_wp hlog hop) (fun log op q hlog hop hq ↦ ?_) h
      rcases op with op | op | op <;> try cases hq
      cases op <;> cases hq
      exact coroutine_wp _ hlog
    refine (Prog.wp_bind _ _).mpr ((Prog.wp_tryCatch _ _).mpr (Prog.wp_mono hentry ?_))
    intro o log hlog
    cases o <;> exact ih hlog

variable (P cfg rest)

/-- Handled one at a time, and as long as nothing else is done while a command is
pending, messages confirm only fresh commands. -/
theorem confirmed_is_fresh (stackDepth : ℕ) (messages : List Message)
    (h : Along (fun before e ↦ Careful P before e.1) []
      ((serve P cfg (stackDepth + 1) messages).events (world rest) [])) :
    Cancels P ((serve P cfg (stackDepth + 1) messages).events (world rest) []) := by
  have hinit : Intact P [] := by simp [FreshBut]
  have hwp : (serve P cfg (stackDepth + 1) messages).wp (disc P rest) (fun _ ↦ Intact P) [] :=
    serve_wp messages hinit
  refine (Prog.along_of_wp hwp fun pre e post heq ↦ ?_).1
  exact ⟨Prog.along_answers _ _ _ pre e post heq, h pre e post heq⟩

/-! The property can be computed on a log -/

instance (log : Log) (op : EngineOp) : Decidable (Careful P log op) := by
  unfold Careful
  split <;> infer_instance

instance (key : Str) (op : EngineOp) : Decidable (Disturbs P key op) := by
  unfold Disturbs
  split <;> infer_instance

theorem fresh_iff {P : Platform} {key command : Str} {log : Log} :
    Fresh P key command log ↔ ∃ n : Fin log.length,
      log[n].1 = .auth (.pendingPut key command) ∧
        ∀ e ∈ log.drop (n + 1), ¬Disturbs P key e.1 := by
  constructor
  · intro h
    obtain ⟨pre, post, rfl, hpost⟩ := h
    refine ⟨⟨pre.length, by simp⟩, by simp, fun e he ↦ hpost e ?_⟩
    simpa using he
  · intro h
    obtain ⟨⟨n, hn⟩, harm, hpost⟩ := h
    have hsplit : log.take n ++ log[n] :: log.drop (n + 1) = log := by
      rw [← List.drop_eq_getElem_cons hn, List.take_append_drop]
    have hunit (e : Event engineSig) (he : e.1 = .auth (.pendingPut key command)) :
        e = ⟨.auth (.pendingPut key command), ()⟩ := by
      obtain ⟨op, r⟩ := e
      cases he
      rfl
    have hevent := hunit log[n] harm
    exact ⟨log.take n, log.drop (n + 1), by rw [← hevent, hsplit], hpost⟩

instance (key command : Str) (log : Log) : Decidable (Fresh P key command log) :=
  decidable_of_iff _ fresh_iff.symm

instance (log : Log) (op : EngineOp) : Decidable (PassesFresh P log op) := by
  unfold PassesFresh
  split <;> infer_instance

instance (log : Log) : Decidable (Cancels P log) := decidableAlong _ _

def chatText (body : String) : Message := ⟨"m", .chat, "owner", none, body, [], [], 0, []⟩

abbrev chatLog (bodies : List String) : Log :=
  (serve asciiPlatform ⟨[], "Owner", "Aigentik"⟩ 2 (bodies.map chatText)).events
    (world fun _ ↦ quiet) []

theorem confirmed_at_once : Cancels asciiPlatform (chatLog ["delete all", "confirm: delete all"]) :=
  confirmed_is_fresh asciiPlatform ⟨[], "Owner", "Aigentik"⟩ (fun _ ↦ quiet) 1 _ (by decide +kernel)

/-- The status command does not cancel the armed one. -/
theorem not_cancelled_by_status :
    ¬Cancels asciiPlatform (chatLog ["delete all", "status", "confirm: delete all"]) := by
  decide +kernel

end Aigentik.Cancellation
