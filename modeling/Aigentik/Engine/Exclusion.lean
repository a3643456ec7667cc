import Aigentik.Engine.Coroutines

namespace Aigentik.Exclusion

open Effects MessageEngine Coroutines

/-- Where a thread is: without the mutex, with it, or in a handler with it. -/
inductive Phase
  | outside | locked | inside
  deriving DecidableEq

def Phase.Holds : Phase → Prop
  | .outside => False
  | .locked | .inside => True

def disc : Discipline engineSig Phase where
  allow
    | l, .sync .lock => l = .outside
    | l, .sync .unlock => l = .locked
    | l, .sync (.begin ..) => l = .locked
    | l, .sync (.finish _) => l = .inside
    | _, _ => True
  may _ _ _ := True
  next
    | _, .sync .lock, _ => .locked
    | _, .sync .unlock, _ => .outside
    | _, .sync (.begin ..), _ => .inside
    | _, .sync (.finish _), _ => .locked
    | l, _, _ => l

/-- No login launches the coroutine of its command. -/
def noLoginCommand : Guard engineSig Shared Message where
  start _ _ := True
  call _ _ op := ∀ message, op ≠ .sync (.launch (.login message))

structure Inv (s : Shared) (ls : List Phase) : Prop where
  sole : Sole Phase.Holds s.locked ls
  inside : ∀ r ∈ s.running, ls[r.1]? = some .inside
  nodup : (s.running.map Prod.fst).Nodup

theorem Inv.running_le_one {s : Shared} {ls : List Phase} (h : Inv s ls) : s.running.length ≤ 1 := by
  have hnd := h.nodup
  match hr : s.running with
  | [] => simp
  | [_] => simp
  | r :: r' :: rest =>
    have h₁ := h.inside r (by simp [hr])
    have h₂ := h.inside r' (by simp [hr])
    have heq := (h.sole r.1 _ h₁ trivial).2 r'.1 _ h₂ trivial
    simp [hr, heq] at hnd

theorem idle_of_handlerCall {l : Phase} {op : EngineOp} (h : HandlerCall op) :
    disc.allow l op ∧ ∀ r, disc.next l op r = l := by
  rcases op with op | op | op
  · exact ⟨trivial, fun _ ↦ rfl⟩
  · exact ⟨trivial, fun _ ↦ rfl⟩
  · cases op <;> first | exact h.elim | exact ⟨trivial, fun _ ↦ rfl⟩

theorem idle_of_entryCall {message : Message} {l : Phase} {op : EngineOp} (h : EntryCall message op) :
    disc.allow l op ∧ ∀ r, disc.next l op r = l := by
  rcases op with op | op | op
  · exact ⟨trivial, fun _ ↦ rfl⟩
  · exact ⟨trivial, fun _ ↦ rfl⟩
  · cases op <;> first | exact h.elim | exact ⟨trivial, fun _ ↦ rfl⟩

variable (P : Platform) (cfg : EngineConfig) (stackDepth : ℕ)

theorem bracket_wp {handler : Handler} {message : Message} {body : Engine Unit}
    (hbody : body.Calls HandlerCall) :
    (bracket handler message body).wp disc (fun _ l ↦ l = .locked) .locked := by
  refine ⟨rfl, fun _ _ ↦ (Prog.wp_tryFinally _ _).mpr ?_⟩
  refine Prog.wp_mono (hbody.wp_idle fun op hop ↦ idle_of_handlerCall (l := .inside) hop) ?_
  intro o l heq
  subst heq
  exact ⟨rfl, fun _ _ ↦ rfl⟩

theorem handle_wp (message : Message) (isAdmin : Bool) :
    (handle P cfg stackDepth message isAdmin).wp disc (fun _ l ↦ l = .locked) .locked := by
  cases isAdmin with
  | true => exact bracket_wp (handleAdminCommand_calls ..)
  | false => exact bracket_wp (Prog.calls_lift (fun _ ↦ trivial) _)

/-- A queued coroutine gives the mutex back, however its handler ends. -/
theorem coroutine_wp (message : Message) (isAdmin : Bool) :
    (coroutine P cfg stackDepth (.queued message isAdmin)).wp disc (fun _ _ ↦ True) .outside := by
  refine ⟨trivial, fun _ _ ↦ (Prog.wp_tryFinally _ _).mpr ⟨rfl, fun _ _ ↦ ?_⟩⟩
  refine (Prog.wp_tryFinally _ _).mpr (Prog.wp_mono (handle_wp P cfg stackDepth message isAdmin) ?_)
  intro o l heq
  subst heq
  refine ⟨rfl, fun _ _ ↦ ?_⟩
  cases o <;> exact ⟨trivial, fun _ _ ↦ trivial⟩

theorem Inv.frame {s s' : Shared} {ls new : List Phase} {i : ℕ} {l : Phase} (h : Inv s ls)
    (hi : ls[i]? = some l) (hlocked : s'.locked = s.locked) (hrunning : s'.running = s.running)
    (hnew : ∀ x ∈ new, x = .outside) : Inv s' (ls.set i l ++ new) := by
  rw [set_of_getElem? hi]
  refine ⟨hlocked ▸ h.sole.append fun x hx ↦ by rw [hnew x hx]; exact id, fun r hr ↦ ?_,
    hrunning ▸ h.nodup⟩
  rw [hrunning] at hr
  exact getElem?_append_of_some (h.inside r hr)

/-- The handlers in progress are not those of a thread that is in none. -/
theorem Inv.inside_set {s : Shared} {ls : List Phase} {i : ℕ} {l l' : Phase} (h : Inv s ls)
    (hi : ls[i]? = some l) (hl : l ≠ .inside) : ∀ r ∈ s.running, (ls.set i l')[r.1]? = some .inside := by
  intro r hr
  have hin := h.inside r hr
  rwa [List.getElem?_set_ne]
  intro heq
  subst heq
  exact hl (by simpa [hi] using hin)

theorem Inv.call {s s' : Shared} {ls : List Phase} {i : ℕ} {l : Phase} {op : EngineOp}
    {offer r : engineSig.Resp op} (h : Inv s ls) (hi : ls[i]? = some l) (hallow : disc.allow l op)
    (hact : Coroutines.act P i op offer s = some (r, s')) :
    Inv s' (ls.set i (disc.next l op r) ++
      ((spawned P cfg stackDepth op).map fun _ ↦ Phase.outside).toList) := by
  have hnew : ∀ x ∈ ((spawned P cfg stackDepth op).map fun _ ↦ Phase.outside).toList,
      x = .outside := by simp
  rcases op with op | op | op
  · refine h.frame hi ?_ ?_ hnew <;> cases op <;> cases hact <;> rfl
  · refine h.frame hi ?_ ?_ hnew <;> cases hact <;> rfl
  · cases op with
    | lock =>
      obtain rfl : l = .outside := hallow
      simp only [Coroutines.act] at hact
      split at hact
      · cases hact
      · rename_i hfree
        cases hact
        rw [Bool.not_eq_true] at hfree
        have hsole := h.sole
        rw [hfree] at hsole
        exact ⟨hsole.acquire.append (by simp [spawned]), by simpa [spawned] using h.inside_set hi (by simp),
          h.nodup⟩
    | unlock =>
      obtain rfl : l = .locked := hallow
      cases hact
      exact ⟨(h.sole.release hi trivial id).append (by simp [spawned]),
        by simpa [spawned] using h.inside_set hi (by simp), h.nodup⟩
    | begin handler message =>
      obtain rfl : l = .locked := hallow
      cases hact
      refine ⟨(h.sole.keep hi fun _ ↦ trivial).append (by simp [spawned]), ?_, ?_⟩
      · simp only [spawned, Option.map_none, Option.toList_none, List.append_nil, List.forall_mem_cons]
        exact ⟨getElem?_set_of_some hi, h.inside_set hi (by simp)⟩
      · refine List.nodup_cons.mpr ⟨fun hmem ↦ ?_, h.nodup⟩
        obtain ⟨r, hr, rfl⟩ := List.mem_map.mp hmem
        have hin := h.inside r hr
        simp [hi] at hin
    | finish handler =>
      obtain rfl : l = .inside := hallow
      cases hact
      refine ⟨(h.sole.keep hi fun _ ↦ trivial).append (by simp [spawned]), ?_,
        h.nodup.sublist (List.filter_sublist.map _)⟩
      intro r hr
      obtain ⟨hr, hne⟩ := List.mem_filter.mp hr
      refine getElem?_append_of_some ?_
      rw [List.getElem?_set_ne (Ne.symm (of_decide_eq_true hne))]
      exact h.inside r hr
    | passGuard key input =>
      refine h.frame hi ?_ ?_ hnew <;> cases hact <;> unfold Shared.execute <;> split <;> rfl
    | launch task => refine h.frame hi ?_ ?_ hnew <;> cases hact <;> rfl
    | isPaused => refine h.frame hi ?_ ?_ hnew <;> cases hact <;> rfl
    | acquireWakeLock => refine h.frame hi ?_ ?_ hnew <;> cases hact <;> rfl
    | releaseWakeLock => refine h.frame hi ?_ ?_ hnew <;> cases hact <;> rfl

def outline : Outline (machine P cfg stackDepth) noLoginCommand Phase where
  disc := disc
  final _ := True
  entryLocal _ := .outside
  spawnLocal _ := .outside
  inv := Inv
  entry_wp _ message _ :=
    Prog.wp_mono ((onMessageReceived_calls P cfg message).wp_idle fun _ ↦ idle_of_entryCall)
      fun _ _ _ ↦ trivial
  spawn_wp s i op p hG hp := by
    rcases op with op | op | op <;> try cases hp
    cases op <;> cases hp
    rename_i task
    cases task with
    | login message => exact absurd rfl (hG message)
    | queued message isAdmin => exact coroutine_wp P cfg stackDepth message isAdmin
  inv_start s ls message _ h := by
    refine ⟨h.sole.append (by simp [Phase.Holds]), fun r hr ↦ ?_, h.nodup⟩
    exact getElem?_append_of_some (h.inside r hr)
  inv_call s ls i l op offer r s' hi hallow _ hact h :=
    ⟨trivial, h.call P cfg stackDepth hi hallow hact⟩

/-- At most one handler is in progress in every state of a run in which no login
carries a command. -/
theorem at_most_one_handler {c : Configuration}
    (h : (machine P cfg stackDepth).Reachable noLoginCommand ⟨.init, []⟩ c) :
    c.shared.running.length ≤ 1 := by
  have hinit : Inv .init [] := ⟨.nil, by simp [Shared.init], by simp [Shared.init]⟩
  obtain ⟨ls, -, hinv⟩ := (outline P cfg stackDepth).reachable h (Outline.holds_init _ hinit)
  exact hinv.running_le_one

/-! Runs on two messages -/

def chatText : Message := ⟨"m", .chat, "owner", none, "status", [], [], 0, []⟩

def loginText : Message :=
  ⟨"n", .notification, "+15550001111", none, "Admin: Owner\nPassword: s3cret\nstatus", [], [], 0, []⟩

/-- The chat message alone, up to the start of its handler. -/
def alone : List (Label engineSig Message) := [.start chatText] ++ calls 0 2 ++ calls 1 3

/-- The login's command, and then the chat message. -/
def overlap : List (Label engineSig Message) :=
  [.start loginText, .start chatText] ++ calls 0 6 ++ calls 1 2 ++ calls 2 1 ++ calls 3 3

theorem chat_handled_alone : ∃ c, sample.run (fun _ _ ↦ noLogin) ⟨.init, []⟩ alone = some c ∧
    c.shared.running = [(1, .admin, chatText)] ∧ c.shared.running.length ≤ 1 := by
  have h : (sample.run (fun _ _ ↦ noLogin) ⟨.init, []⟩ alone).map (fun c ↦ c.shared.running) =
      some [(1, .admin, chatText)] := by decide +kernel
  obtain ⟨c, hc, hrunning⟩ := Option.map_eq_some_iff.mp h
  refine ⟨c, hc, hrunning, at_most_one_handler asciiPlatform ⟨[], "Owner", "Aigentik"⟩ 3 ?_⟩
  refine Machine.reachable_of_run _ (fun _ _ ↦ trivial) (fun _ _ op hop message heq ↦ ?_) hc
  simp [heq, noLogin] at hop

theorem two_handlers_in_progress :
    ∃ c, sample.run (fun _ _ _ ↦ true) ⟨.init, []⟩ overlap = some c ∧
      ¬c.shared.running.length ≤ 1 := by
  have h : (sample.run (fun _ _ _ ↦ true) ⟨.init, []⟩ overlap).map
      (fun c ↦ c.shared.running.length) = some 2 := by decide +kernel
  obtain ⟨c, hc, hlen⟩ := Option.map_eq_some_iff.mp h
  exact ⟨c, hc, by omega⟩

end Aigentik.Exclusion
