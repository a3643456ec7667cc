import Aigentik.Engine.Pipeline

namespace Aigentik.Pipeline

open Strings Effects MessageEngine

variable {L : Type} {P : Platform} {cfg : EngineConfig} {D : Discipline systemSig L} {I : L → Prop} {l : L}

/-- The condition lets the call through and survives it. -/
def Keeps (D : Discipline systemSig L) (I : L → Prop) (op : SystemOp) : Prop :=
  ∀ l, I l → D.allow l op ∧ ∀ r, D.may l op r → I (D.next l op r)

/-- What a reply does in the routers keeps the condition. -/
structure KeepsReplies (D : Discipline systemSig L) (I : L → Prop) : Prop where
  route : ∀ op, EmailRouter.RouteCall op → Keeps D I (.mail (.router op))
  send : ∀ op, NotificationReplyRouter.SendCall op → Keeps D I (.listener (.router op))

theorem call_wp {op : SystemOp} (h : Keeps D I op) (hl : I l) :
    (Prog.call op .ret : Prog systemSig Empty _).wp D (fun _ ↦ I) l :=
  h l hl

theorem routeReply_wp (h : ∀ op, EmailRouter.RouteCall op → Keeps D I (.mail (.router op)))
    (sender text : Str) (hl : I l) :
    (routeReply P sender text).catching.wp D (fun _ ↦ I) l := by
  refine (Prog.wp_catching _).mpr ((Prog.wp_lift _ _).mpr ?_)
  exact (EmailRouter.routeReply_calls P sender text).wp (fun l op hl hop ↦ h op hop l hl) hl

theorem sendReply_wp (h : ∀ op, NotificationReplyRouter.SendCall op → Keeps D I (.listener (.router op)))
    (messageId text : Str) (hl : I l) :
    (sendReply messageId text).catching.wp D (fun _ ↦ I) l := by
  refine (Prog.wp_catching _).mpr ((Prog.wp_lift _ _).mpr ?_)
  exact (NotificationReplyRouter.sendReply_calls messageId text).wp (fun l op hl hop ↦ h op hop l hl) hl

theorem engineLayer_wp {op : EngineOp} (h : KeepsReplies D I) (hop : Keeps D I (.engine op)) (hl : I l) :
    (engineLayer P op).wp D (fun _ ↦ I) l := by
  rcases op with op | op | op
  · exact call_wp hop hl
  · cases op with
    | routeReply sender reply => exact routeReply_wp h.route sender reply.text hl
    | sendReply messageId reply => exact sendReply_wp h.send messageId reply.text hl
    | _ => exact call_wp hop hl
  · exact call_wp hop hl

theorem receive_wp {message : Message} (h : KeepsReplies D I)
    (hop : ∀ op, EntryCall message op → Keeps D I (.engine op)) (hl : I l) :
    (receive P cfg message).wp D (fun _ ↦ I) l :=
  (onMessageReceived_calls P cfg message).wp_subst
    (fun _ op hl hC ↦ engineLayer_wp h (hop op hC) hl) hl

theorem bracket_wp {handler : Handler} {message : Message} {body : Engine Unit} {C : EngineOp → Prop}
    (hbody : body.Calls C)
    (hbegin : D.allow l (.engine (.sync (.begin handler message))))
    (hC : ∀ l op, I l → C op → (engineLayer P op).wp D (fun _ ↦ I) l)
    (hI : ∀ r, I (D.next l (.engine (.sync (.begin handler message))) r))
    (hfinish : ∀ l, D.allow l (.engine (.sync (.finish handler)))) :
    ((bracket handler message body).subst (engineLayer P)).wp D (fun _ _ ↦ True) l := by
  refine ⟨hbegin, fun r _ ↦ ?_⟩
  change ((body.tryFinally _).subst (engineLayer P)).wp _ _ _
  rw [Prog.subst_tryFinally]
  refine (Prog.wp_tryFinally _ _).mpr (Prog.wp_mono (hbody.wp_subst hC (hI r)) fun o l' _ ↦ ?_)
  exact ⟨hfinish l', fun _ _ ↦ by cases o <;> trivial⟩

def OnAct (C : ActOp → Prop) : EngineOp → Prop
  | .act op => C op
  | _ => False

/-- The calls around the handler of a queued message. -/
def LockOp : SyncOp → Prop
  | .acquireWakeLock | .releaseWakeLock | .lock | .unlock => True
  | _ => False

theorem locked_wp {body : Engine Unit} (h : (body.subst (engineLayer P)).wp D (fun _ _ ↦ True) l)
    (hlock : ∀ l op, LockOp op → D.allow l (.engine (.sync op)) ∧
      ∀ r, D.next l (.engine (.sync op)) r = l) :
    ((withWakeLock (withLock body)).subst (engineLayer P)).wp D (fun _ _ ↦ True) l := by
  have skip (op : SyncOp) (hop : LockOp op) {p : Prog systemSig Throwable Unit}
      (hp : p.wp D (fun _ _ ↦ True) l) :
      (Prog.call (SystemOp.engine (.sync op)) fun _ ↦ p : Prog systemSig Throwable Unit).wp D
        (fun _ _ ↦ True) l :=
    ⟨(hlock l op hop).1, fun r _ ↦ by
      rw [(hlock l op hop).2 r]
      exact hp⟩
  have release (op : SyncOp) (hop : LockOp op) {p : Prog systemSig Throwable Unit}
      (hp : p.wp D (fun _ _ ↦ True) l) :
      (p.tryFinally (.call (.engine (.sync op)) fun _ ↦ .ret ())).wp D (fun _ _ ↦ True) l := by
    refine (Prog.wp_tryFinally _ _).mpr (Prog.wp_mono hp fun o l' _ ↦ ⟨(hlock l' op hop).1, fun _ _ ↦ ?_⟩)
    cases o <;> trivial
  have inner : ((withLock body).subst (engineLayer P)).wp D (fun _ _ ↦ True) l := by
    change (Prog.call (SystemOp.engine (.sync .lock)) fun _ ↦
      (body.tryFinally (sync .unlock)).subst (engineLayer P)).wp _ _ _
    rw [Prog.subst_tryFinally]
    exact skip .lock trivial (release .unlock trivial h)
  change (Prog.call (SystemOp.engine (.sync .acquireWakeLock)) fun _ ↦
    ((withLock body).tryFinally (sync .releaseWakeLock)).subst (engineLayer P)).wp _ _ _
  rw [Prog.subst_tryFinally]
  exact skip .acquireWakeLock trivial (release .releaseWakeLock trivial inner)

/-! The threads that are launched -/

section Spawn

variable (plain : L) (waiting : Handler → Message → L)

/-- The local state a thread is started with: that of a message to be handled, or any other. -/
def spawnLocal : SystemOp → L
  | .engine (.sync (.launch (.login message))) => waiting .admin message
  | .engine (.sync (.launch (.queued message true))) => waiting .admin message
  | .engine (.sync (.launch (.queued message false))) => waiting .publicMessage message
  | _ => plain

def launched : SystemOp → List L
  | .engine (.sync (.launch task)) => [spawnLocal plain waiting (.engine (.sync (.launch task)))]
  | .mail (.router (.launchReply _)) => [plain]
  | _ => []

variable {plain waiting} {stackDepth : ℕ}

theorem launched_eq (op : SystemOp) :
    ((spawned P cfg stackDepth op).map fun _ ↦ spawnLocal plain waiting op).toList =
      launched plain waiting op := by
  rcases op with op | op | op
  · rcases op with op | op | op <;> try rfl
    cases op <;> rfl
  · cases op <;> try rfl
    rename_i op
    cases op <;> rfl
  · rfl

theorem spawn_wp {op : SystemOp} {p : Prog systemSig Throwable Unit}
    (hadmin : ∀ message, ((bracket .admin message (handleAdminCommand P cfg stackDepth message false)).subst
      (engineLayer P)).wp D (fun _ _ ↦ True) (waiting .admin message))
    (hpublic : ∀ message, ((bracket .publicMessage message (liftAct (handlePublicMessage P cfg message))).subst
      (engineLayer P)).wp D (fun _ _ ↦ True) (waiting .publicMessage message))
    (hlock : ∀ l op, LockOp op → D.allow l (.engine (.sync op)) ∧
      ∀ r, D.next l (.engine (.sync op)) r = l)
    (hsend : ∀ reply, D.allow plain (.mail (.sendEmail reply)))
    (hp : spawned P cfg stackDepth op = some p) :
    p.wp D (fun _ _ ↦ True) (spawnLocal plain waiting op) := by
  rcases op with op | op | op
  · rcases op with op | op | op <;> try cases hp
    cases op <;> cases hp
    rename_i task
    cases task with
    | login message => exact hadmin message
    | queued message isAdmin =>
      cases isAdmin with
      | true => exact locked_wp (hadmin message) hlock
      | false => exact locked_wp (hpublic message) hlock
  · cases op <;> try cases hp
    rename_i op
    cases op <;> cases hp
    exact ⟨hsend _, fun _ _ ↦ trivial⟩
  · cases hp

end Spawn

/-! The handlers in progress -/

theorem lookup_filter_ne {α : Type} (rs : List (ℕ × α)) (i j : ℕ) :
    (rs.filter fun r ↦ r.1 ≠ i).lookup j = if j = i then none else rs.lookup j := by
  induction rs with
  | nil => simp
  | cons r rs ih =>
    obtain ⟨k, a⟩ := r
    by_cases hk : k = i
    · subst hk
      rw [List.filter_cons_of_neg (by simp), ih]
      by_cases hj : j = k
      · simp [hj]
      · simp [hj, List.lookup_cons, beq_eq_false_iff_ne.mpr hj]
    · rw [List.filter_cons_of_pos (by simpa using hk), List.lookup_cons, List.lookup_cons, ih]
      by_cases hj : j = k
      · subst hj
        simp [hk]
      · simp [beq_eq_false_iff_ne.mpr hj]

variable {s s' : Shared} {i : ℕ} {op : SystemOp} {offer r : systemSig.Resp op}

theorem act_engine (h : act P i op offer s = some (r, s')) (hop : ∀ o, op ≠ .engine o) :
    s'.engine = s.engine := by
  rcases op with op | op | op
  · exact absurd rfl (hop op)
  · cases op with
    | router op =>
      cases op with
      | gvoiceContext op =>
        obtain ⟨_, -, heq⟩ := Option.map_eq_some_iff.mp h
        cases heq
        rfl
      | emailContext op =>
        obtain ⟨_, -, heq⟩ := Option.map_eq_some_iff.mp h
        cases heq
        rfl
      | _ =>
        cases h
        rfl
    | _ =>
      cases h
      rfl
  · cases op with
    | router op => exact (replyRouterAct_mail h).engine
    | _ =>
      cases h
      rfl

def Shared.handlingAfter (s : Shared) (thread : ℕ) : SystemOp → Handling
  | .engine (.sync (.begin handler message)) => some (handler, message)
  | .engine (.sync (.finish _)) => none
  | _ => s.handling thread

theorem act_handling (h : act P i op offer s = some (r, s')) (j : ℕ) :
    s'.handling j = if j = i then s.handlingAfter i op else s.handling j := by
  have same (hs : s'.engine.running = s.engine.running) (hop : s.handlingAfter i op = s.handling i) :
      s'.handling j = if j = i then s.handlingAfter i op else s.handling j := by
    rw [Shared.handling, hs, hop]
    split
    · rename_i hj
      rw [hj]
      rfl
    · rfl
  rcases op with op | op | op
  · obtain ⟨⟨r', engine⟩, hact, heq⟩ := Option.map_eq_some_iff.mp h
    cases heq
    have hrunning := Coroutines.act_running hact
    rcases op with op | op | op
    · exact same hrunning rfl
    · exact same hrunning rfl
    · cases op with
      | begin handler message =>
        have hlook : engine.running.lookup j = _ := congrArg (List.lookup j) hrunning
        rw [Coroutines.Shared.runningAfter, List.lookup_cons] at hlook
        by_cases hj : j = i
        · simpa [hj, Shared.handlingAfter, Shared.handling] using hlook
        · simpa [hj, beq_eq_false_iff_ne.mpr hj, Shared.handling] using hlook
      | finish handler =>
        have hlook : engine.running.lookup j = _ := congrArg (List.lookup j) hrunning
        rw [Coroutines.Shared.runningAfter, lookup_filter_ne] at hlook
        exact hlook
      | _ => exact same hrunning rfl
  · exact same (congrArg _ (act_engine h (by simp))) rfl
  · exact same (congrArg _ (act_engine h (by simp))) rfl

/-- The handlers in which replies have been sent, or dropped. -/
def Shared.repliedIn (s : Shared) : List Handling := s.fired.map Prod.fst ++ s.replies.map MailReply.handling

/-- A reply is sent in the handler of the thread that sends it. -/
theorem act_repliedIn (h : act P i op offer s = some (r, s')) {x : Handling} (hx : x ∈ s'.repliedIn) :
    x ∈ s.repliedIn ∨ x = s.handling i := by
  have same (hfired : s'.fired = s.fired) (hreplies : s'.replies = s.replies) : x ∈ s.repliedIn ∨ x = s.handling i := by
    rw [Shared.repliedIn, hfired, hreplies] at hx
    exact .inl hx
  have append (hfired : ∃ l, s'.fired = s.fired ++ l ∧ ∀ f ∈ l, f.1 = s.handling i)
      (hreplies : ∃ l, s'.replies = s.replies ++ l ∧ ∀ r ∈ l, r.handling = s.handling i) :
      x ∈ s.repliedIn ∨ x = s.handling i := by
    obtain ⟨fs, hfs, hown⟩ := hfired
    obtain ⟨rs, hrs, hown'⟩ := hreplies
    rw [Shared.repliedIn, hfs, hrs, List.map_append, List.map_append] at hx
    rcases List.mem_append.mp hx with hx | hx <;> rcases List.mem_append.mp hx with hx | hx
    · exact .inl (List.mem_append_left _ hx)
    · obtain ⟨f, hf, rfl⟩ := List.mem_map.mp hx
      exact .inr (hown f hf)
    · exact .inl (List.mem_append_right _ hx)
    · obtain ⟨r, hr, rfl⟩ := List.mem_map.mp hx
      exact .inr (hown' r hr)
  rcases op with op | op | op
  · obtain ⟨_, -, heq⟩ := Option.map_eq_some_iff.mp h
    cases heq
    exact same rfl rfl
  · cases op with
    | router op =>
      cases op with
      | gvoiceContext op | emailContext op =>
        obtain ⟨_, -, heq⟩ := Option.map_eq_some_iff.mp h
        cases heq
        exact same rfl rfl
      | launchReply reply | dropReply reply =>
        cases h
        exact append ⟨[], (List.append_nil _).symm, by simp⟩ ⟨_, rfl, by simp⟩
      | _ =>
        cases h
        exact same rfl rfl
    | _ =>
      cases h
      exact same rfl rfl
  · cases op with
    | router op =>
      cases op with
      | ids op | entries op =>
        obtain ⟨_, -, heq⟩ := Option.map_eq_some_iff.mp h
        cases heq
        exact same rfl rfl
      | fire entry key text =>
        cases h
        cases offer with
        | true => exact append ⟨_, rfl, by simp⟩ ⟨[], (List.append_nil _).symm, by simp⟩
        | false => exact same rfl rfl
      | _ =>
        cases h
        exact same rfl rfl
    | _ =>
      cases h
      exact same rfl rfl

/-- A thread knows the message that it is handling. -/
def Tracks (knows : L → Handler → Message → Prop) (s : Shared) (ls : List L) : Prop :=
  ∀ i h m, s.handling i = some (h, m) → ∃ l, ls[i]? = some l ∧ knows l h m

/-- The new local state knows the message of a handler that is entered, and of one that goes on. -/
def Follows (knows : L → Handler → Message → Prop) (l l' : L) : SystemOp → Prop
  | .engine (.sync (.begin h m)) => knows l' h m
  | .engine (.sync (.finish _)) => True
  | _ => ∀ h m, knows l h m → knows l' h m

variable {knows : L → Handler → Message → Prop} {ls new : List L} {l' : L}

theorem Tracks.known (h : Tracks knows s ls) (hi : ls[i]? = some l) {handler : Handler} {m : Message}
    (hm : s.handling i = some (handler, m)) : knows l handler m := by
  obtain ⟨x, hx, hxm⟩ := h i handler m hm
  rw [hi] at hx
  cases hx
  exact hxm

theorem Tracks.step (h : Tracks knows s ls) (hi : ls[i]? = some l)
    (hact : act P i op offer s = some (r, s')) (hfollows : Follows knows l l' op) :
    Tracks knows s' (ls.set i l' ++ new) := by
  intro j handler m hm
  rw [act_handling hact] at hm
  split at hm
  · rename_i hj
    subst hj
    refine ⟨l', getElem?_append_of_some (getElem?_set_of_some hi), ?_⟩
    have other (hsame : s.handlingAfter j op = s.handling j)
        (hf : ∀ h m, knows l h m → knows l' h m) : knows l' handler m :=
      hf handler m (h.known hi (hsame ▸ hm))
    rcases op with op | op | op
    · rcases op with op | op | op
      · exact other rfl hfollows
      · exact other rfl hfollows
      · cases op with
        | begin handler' message =>
          cases hm
          exact hfollows
        | finish handler' => cases hm
        | _ => exact other rfl hfollows
    · exact other rfl hfollows
    · exact other rfl hfollows
  · rename_i hj
    obtain ⟨x, hx, hxm⟩ := h j handler m hm
    refine ⟨x, getElem?_append_of_some ?_, hxm⟩
    rwa [List.getElem?_set_ne (Ne.symm hj)]

theorem Tracks.append (h : Tracks knows s ls) : Tracks knows s (ls ++ new) := by
  intro j handler m hm
  obtain ⟨x, hx, hxm⟩ := h j handler m hm
  exact ⟨x, getElem?_append_of_some hx, hxm⟩

end Aigentik.Pipeline
