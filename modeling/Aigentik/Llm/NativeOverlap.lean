import Aigentik.Llm.SmolLMManager

namespace Aigentik.NativeOverlap

open Strings Effects SmolLMManager
open ChatScreen (Chat ChatMessage Spoken Thrown)

/-- The native calls that are made on the main thread. All others are made on `jniDispatcher`. -/
def OnMain : NativeCall → Bool
  | .close | .getResponseGenerationSpeed | .getContextSizeUsed => true
  | _ => false

/-- No coroutine is on `jniDispatcher` when a native call on the main thread begins, and none gets
there before it ends. -/
def idle (s : Shared) : ManagerOp → Bool
  | .enter call _ => !(OnMain call && s.jni)
  | .start _ | .onJni _ => s.running.all fun r ↦ !OnMain r.call
  | _ => true

def idleDispatcher : Guard managerSig Shared Input where
  start _ _ := True
  call s _ op := idle s op

/-- No two native calls are in progress on one handle. -/
def NoOverlap (s : Shared) : Prop := (s.running.map Running.handle).Nodup

/-- The dispatcher that a coroutine is on, or the native call that it makes there. -/
inductive Place
  | off
  | main
  | jni
  | calling (call : NativeCall) (handle : ℕ)

def HoldsMain : Place → Prop
  | .main => True
  | .calling call _ => OnMain call = true
  | _ => False

def HoldsJni : Place → Prop
  | .jni => True
  | .calling call _ => OnMain call = false
  | _ => False

def home (call : NativeCall) : Place := if OnMain call then .main else .jni

def disc : Discipline managerSig Place where
  allow
    | l, .onMain _ | l, .start _ | l, .onJni _ => l = .off
    | l, .offMain => l = .main
    | l, .offJni => l = .jni
    | l, .enter call _ => l = home call
    | l, .leave call handle => l = .calling call handle
    | _, _ => True
  may _ _ _ := True
  next
    | _, .onMain _, _ => .main
    | _, .start _, _ | _, .onJni _, _ => .jni
    | _, .offMain, _ | _, .offJni, _ => .off
    | _, .enter call handle, _ => .calling call handle
    | _, .leave call _, _ => home call
    | l, _, _ => l

/-! The programs -/

variable {α β : Type} {l : Place} {job : ℕ}

/-- The program ends on the dispatcher on which it starts. -/
def Stays (l : Place) (p : Coroutine α) : Prop := p.wp disc (fun _ l' ↦ l' = l) l

/-- The same of a program that throws nothing. -/
def Returns (l : Place) (p : Coroutine α) : Prop := p.wp disc (Prog.exits (fun _ l' ↦ l' = l) fun _ _ ↦ False) l

theorem Returns.stays {p : Coroutine α} (hp : Returns l p) : Stays l p := by
  refine Prog.wp_mono hp fun o l' hl' ↦ ?_
  cases o with
  | ok _ => exact hl'
  | error e => exact hl'.elim

theorem Stays.bind {p : Coroutine α} {f : α → Coroutine β} (hp : Stays l p) (hf : ∀ a, Stays l (f a)) :
    Stays l (p >>= f) := by
  refine (Prog.wp_bind _ _).mpr (Prog.wp_mono hp fun o l' hl' ↦ ?_)
  subst hl'
  cases o with
  | ok a => exact hf a
  | error e => rfl

theorem Returns.bind {p : Coroutine α} {f : α → Coroutine β} (hp : Returns l p) (hf : ∀ a, Returns l (f a)) :
    Returns l (p >>= f) := by
  refine (Prog.wp_bind _ _).mpr (Prog.wp_mono hp fun o l' hl' ↦ ?_)
  cases o with
  | ok a =>
    subst hl'
    exact hf a
  | error e => exact hl'.elim

theorem Stays.tryCatch {p : Coroutine α} {f : Thrown → Coroutine α} (hp : Stays l p) (hf : ∀ e, Stays l (f e)) :
    Stays l (p.tryCatch f) := by
  refine (Prog.wp_tryCatch _ _).mpr (Prog.wp_mono hp fun o l' hl' ↦ ?_)
  subst hl'
  cases o with
  | ok a => rfl
  | error e => exact hf e

/-- A call that has nothing to do with dispatchers and native methods. -/
def Plain : ManagerOp → Prop
  | .onMain _ | .offMain | .start _ | .onJni _ | .offJni | .enter .. | .leave .. => False
  | _ => True

theorem plain_allow {op : ManagerOp} (hop : Plain op) : disc.allow l op ∧ ∀ r, disc.next l op r = l := by
  cases op <;> first | exact hop.elim | exact ⟨trivial, fun _ ↦ rfl⟩

theorem perform_returns {op : ManagerOp} (hop : Plain op) : Returns l (perform op) :=
  ⟨(plain_allow hop).1, fun _ _ ↦ (plain_allow hop).2 _⟩

theorem returns_after {op : ManagerOp} {p : Coroutine α} (hp : Returns l p) (hop : Plain op) :
    Returns l (perform op >>= fun _ ↦ p) :=
  (perform_returns hop).bind fun _ ↦ hp

theorem stays_after {op : ManagerOp} {p : Coroutine α} (hp : Stays l p) (hop : Plain op) :
    Stays l (perform op >>= fun _ ↦ p) :=
  (perform_returns hop).stays.bind fun _ ↦ hp

theorem native_returns (call : NativeCall) : Returns (home call) (native call) :=
  ⟨trivial, fun _ _ ↦ ⟨rfl, fun _ _ ↦ ⟨rfl, fun _ _ ↦ rfl⟩⟩⟩

theorem onMainThread_wp {p : Coroutine Unit} (hp : Stays .main p) :
    (onMainThread p).wp disc (fun _ _ ↦ True) .off := by
  refine ⟨rfl, fun _ _ ↦ ?_⟩
  change Prog.wp disc _ (p >>= _) _
  refine (Prog.wp_bind _ _).mpr (Prog.wp_mono hp fun o l' hl' ↦ ?_)
  subst hl'
  cases o with
  | ok _ => exact ⟨rfl, fun _ _ ↦ trivial⟩
  | error e => trivial

theorem suspending_stays {p : Coroutine α} (hp : Returns .off p) : Stays .jni (suspending job p) := by
  refine ⟨rfl, fun _ _ ↦ ⟨trivial, fun r _ ↦ ?_⟩⟩
  cases r with
  | false =>
    refine ⟨rfl, fun active _ ↦ ?_⟩
    cases active <;> rfl
  | true =>
    change Prog.wp disc _ ((some <$> p) >>= _) _
    rw [map_eq_pure_bind, bind_assoc]
    refine (Prog.wp_bind _ _).mpr (Prog.wp_mono hp fun o l' hl' ↦ ?_)
    cases o with
    | ok a =>
      subst hl'
      refine ⟨rfl, fun active _ ↦ ?_⟩
      cases active <;> rfl
    | error e => exact hl'.elim

theorem withMain_stays {p : Coroutine Unit} (hp : Returns .main p) : Stays .jni (withMain job p) := by
  have hback (started : Bool) : Prog.wp disc (fun _ l' ↦ l' = .jni) (do
      perform .offMain
      if ← onJni job then
        if started then return () else Prog.throw .cancelled
      else Prog.throw .cancelled) .main := by
    refine ⟨rfl, fun _ _ ↦ ⟨rfl, fun r _ ↦ ?_⟩⟩
    cases r with
    | false => rfl
    | true => cases started <;> rfl
  refine ⟨rfl, fun _ _ ↦ ⟨rfl, fun started _ ↦ ?_⟩⟩
  cases started with
  | false => exact hback false
  | true =>
    change Prog.wp disc _ (p >>= _) _
    refine (Prog.wp_bind _ _).mpr (Prog.wp_mono hp fun o l' hl' ↦ ?_)
    cases o with
    | ok _ =>
      subst hl'
      exact hback true
    | error e => exact hl'.elim

theorem withMain_catching {p : Coroutine Unit} (hp : Returns .main p) :
    Stays .jni ((withMain job p).tryCatch fun _ ↦ return ()) :=
  (withMain_stays hp).tryCatch fun _ ↦ rfl

theorem withStateLock_returns {p : Coroutine α} (hp : Returns l p) : Returns l (withStateLock p) := by
  refine ⟨trivial, fun _ _ ↦ (Prog.wp_tryFinally _ _).mpr (Prog.wp_mono hp fun o l' hl' ↦ ?_)⟩
  cases o with
  | ok a => exact ⟨trivial, fun _ _ ↦ hl'⟩
  | error e => exact hl'.elim

theorem loadNative_returns (modelPath : Str) : Returns .off (loadNative job modelPath) := by
  refine ⟨trivial, fun handle _ ↦ ?_⟩
  cases handle with
  | none => rfl
  | some handle => exact ⟨trivial, fun _ _ ↦ rfl⟩

theorem checked_stays (call : NativeCall) : Stays (home call) (checked call) := by
  refine (native_returns call).stays.bind fun answer ↦ ?_
  cases answer <;> rfl

theorem addChatMessage_stays (message : Spoken) : Stays .jni (addChatMessage message) :=
  (native_returns (.addChatMessage message)).stays.bind fun _ ↦ rfl

theorem addAll_stays (messages : List ChatMessage) : Stays .jni (addAll messages) := by
  induction messages with
  | nil => rfl
  | cons message rest ih => exact (addChatMessage_stays message.spoken).bind fun _ ↦ ih

theorem addSystemPrompt_stays (chat : Chat) : Stays .jni (addSystemPrompt chat) := by
  unfold addSystemPrompt
  split
  · exact addChatMessage_stays chat.system
  · rfl

theorem addStoredMessages_stays (chat : Chat) : Stays .jni (addStoredMessages job chat) := by
  unfold addStoredMessages
  split
  · rfl
  · have hrows : Stays .jni (suspending job (getMessagesForModel chat.id)) :=
      suspending_stays ⟨trivial, fun _ _ ↦ rfl⟩
    exact hrows.bind addAll_stays

theorem loadInstance_stays (chat : Chat) (modelPath : Str) : Stays .jni (loadInstance job chat modelPath) := by
  refine (suspending_stays (loadNative_returns modelPath)).bind fun returned ↦ ?_
  cases returned with
  | false => rfl
  | true =>
    refine (addSystemPrompt_stays chat).bind fun _ ↦ (addStoredMessages_stays chat).bind fun _ ↦ withMain_stays ?_
    exact returns_after (perform_returns trivial) trivial

theorem coroutine_wp {p : Coroutine Unit} (hp : Stays .jni p) : Prog.wp disc (fun _ _ ↦ True) (do
    if ← start job then p
    perform .offJni) .off := by
  refine ⟨rfl, fun started _ ↦ ?_⟩
  cases started with
  | false => exact ⟨rfl, fun _ _ ↦ trivial⟩
  | true =>
    change Prog.wp disc _ (p >>= _) _
    refine (Prog.wp_bind _ _).mpr (Prog.wp_mono hp fun o l' hl' ↦ ?_)
    subst hl'
    cases o with
    | ok _ => exact ⟨rfl, fun _ _ ↦ trivial⟩
    | error e => trivial

theorem loadCoroutine_wp (chat : Chat) (modelPath : Str) :
    (loadCoroutine job chat modelPath).wp disc (fun _ _ ↦ True) .off := by
  refine coroutine_wp ((loadInstance_stays chat modelPath).tryCatch fun e ↦ ?_)
  cases e with
  | cancelled => rfl
  | exception => exact withMain_catching (perform_returns trivial)

theorem collect_stays (rounds : ℕ) (response : Str) : Stays .jni (collect job rounds response) := by
  induction rounds generalizing response with
  | zero => rfl
  | succ rounds ih =>
    refine (native_returns .completionLoop).stays.bind fun answer ↦ ?_
    cases answer with
    | piece text =>
      refine ⟨trivial, fun active _ ↦ ?_⟩
      cases active with
      | true => exact stays_after (ih _) trivial
      | false => rfl
    | endOfGeneration => exact (native_returns .stopCompletion).stays.bind fun _ ↦ rfl
    | _ => rfl

theorem respond_stays (rounds : ℕ) (query : Str) : Stays .jni (respond rounds job query) := by
  refine stays_after ((checked_stays (.startCompletion query)).bind fun _ ↦ ?_) trivial
  have hresponse : Stays .jni (ChatScreen.responseTransform <$> collect job rounds []) := by
    rw [map_eq_pure_bind]
    exact (collect_stays rounds []).bind fun _ ↦ rfl
  refine hresponse.bind fun response ↦ ?_
  have hchat : Returns .jni (withStateLock getChat) := withStateLock_returns ⟨trivial, fun _ _ ↦ rfl⟩
  have hend : Stays .jni (withMain job (do
      perform (.setInferenceOn false)
      let _ ← native .getResponseGenerationSpeed
      let _ ← native .getContextSizeUsed
      perform (.callback (some job) (.success response)))) := by
    refine withMain_stays (returns_after ?_ trivial)
    exact (native_returns .getResponseGenerationSpeed).bind fun _ ↦
      (native_returns .getContextSizeUsed).bind fun _ ↦ perform_returns trivial
  refine hchat.stays.bind fun chat ↦ ?_
  cases chat with
  | none => exact hend
  | some chat => exact (suspending_stays (perform_returns (by trivial))).bind fun _ ↦ hend

theorem responseCoroutine_wp (rounds : ℕ) (query : Str) :
    (responseCoroutine rounds job query).wp disc (fun _ _ ↦ True) .off := by
  refine coroutine_wp ((respond_stays rounds query).tryCatch fun e ↦ ?_)
  exact stays_after (withMain_catching (perform_returns trivial)) trivial

theorem benchmarkCoroutine_wp : (benchmarkCoroutine job).wp disc (fun _ _ ↦ True) .off :=
  coroutine_wp ((native_returns .benchModel).stays.bind fun _ ↦ withMain_catching (perform_returns (by trivial)))

theorem spawn_wp {rounds : ℕ} {op : ManagerOp} {p : Coroutine Unit} (hp : spawned rounds op = some p) :
    p.wp disc (fun _ _ ↦ True) .off := by
  cases op <;> cases hp
  · exact loadCoroutine_wp ..
  · exact responseCoroutine_wp ..
  · exact benchmarkCoroutine_wp

theorem close_returns : Returns .main close := by
  have hrest (handle : ℕ) : Returns .main (if handle ≠ 0 then (do
      let _ ← native .close
      perform (.setNativePtr none 0)) else return ()) := by
    split
    · exact (native_returns .close).bind fun _ ↦ perform_returns trivial
    · rfl
  exact ⟨trivial, fun handle _ ↦ hrest handle⟩

theorem unload_returns : Returns .main unload :=
  withStateLock_returns (returns_after (returns_after (returns_after
    (returns_after close_returns trivial) trivial) trivial) trivial)

theorem entry_wp (input : Input) : (entry input).wp disc (fun _ _ ↦ True) .off := by
  have launch (op : ℕ → ManagerOp) (hop : ∀ job, Plain (op job)) :
      Returns .main (newJob >>= fun job ↦ perform (op job)) :=
    ⟨trivial, fun job _ ↦ perform_returns (hop job)⟩
  cases input with
  | load chat modelPath =>
    refine onMainThread_wp (Returns.stays (withStateLock_returns ?_))
    exact returns_after (returns_after (launch (.launchLoad · chat modelPath) fun _ ↦ trivial) trivial) trivial
  | unload => exact onMainThread_wp unload_returns.stays
  | unloadModel =>
    refine onMainThread_wp ⟨trivial, fun inferring _ ↦ ?_⟩
    cases inferring with
    | true => rfl
    | false => exact unload_returns.stays.bind fun _ ↦ Returns.stays (perform_returns trivial)
  | getResponse query =>
    refine onMainThread_wp (Returns.stays (withStateLock_returns ⟨trivial, fun loaded _ ↦ ?_⟩))
    cases loaded with
    | true => exact returns_after (launch (.launchResponse · query) fun _ ↦ trivial) trivial
    | false => exact perform_returns trivial
  | benchmark => exact onMainThread_wp (launch .launchBenchmark fun _ ↦ trivial).stays
  | stopResponseGeneration =>
    refine onMainThread_wp (Returns.stays (withStateLock_returns ?_))
    exact returns_after (perform_returns trivial) trivial

/-! The calls in progress -/

/-- A native call in progress is that of its thread; one on the main thread finds the other
dispatcher idle. -/
structure Inv (s : Shared) (ls : List Place) : Prop where
  main : Sole HoldsMain s.main ls
  jni : Sole HoldsJni s.jni ls
  running : ∀ r ∈ s.running, ls[r.thread]? = some (.calling r.call r.handle)
  apart : ∀ r ∈ s.running, OnMain r.call = true → s.jni = false
  nodup : s.running.Nodup

variable {s s' : Shared} {ls new : List Place} {i : ℕ} {l' : Place}

/-- There is one call at most. -/
theorem Inv.single (h : Inv s ls) {r r' : Running} (hr : r ∈ s.running) (hr' : r' ∈ s.running) : r = r' := by
  have same (hthread : r'.thread = r.thread) : r = r' := by
    have hplace := h.running r hr
    rw [← hthread, h.running r' hr'] at hplace
    obtain ⟨hcall, hhandle⟩ := Place.calling.inj (Option.some.inj hplace)
    obtain ⟨thread, call, handle⟩ := r
    obtain ⟨thread', call', handle'⟩ := r'
    exact Running.mk.injEq .. ▸ ⟨hthread.symm, hcall.symm, hhandle.symm⟩
  have other {q q' : Running} (hq : q ∈ s.running) (hq' : q' ∈ s.running) (hmain : OnMain q.call = true)
      (hjni : OnMain q'.call = false) : False := by
    have hheld := (h.jni q'.thread _ (h.running q' hq') hjni).1
    rw [h.apart q hq hmain] at hheld
    cases hheld
  cases hmain : OnMain r.call with
  | true =>
    cases hmain' : OnMain r'.call with
    | true => exact same ((h.main r.thread _ (h.running r hr) hmain).2 r'.thread _ (h.running r' hr') hmain')
    | false => exact (other hr hr' hmain hmain').elim
  | false =>
    cases hmain' : OnMain r'.call with
    | true => exact (other hr' hr hmain' hmain).elim
    | false => exact same ((h.jni r.thread _ (h.running r hr) hmain).2 r'.thread _ (h.running r' hr') hmain')

theorem nodup_map_of_single {α β : Type} {as : List α} (hnodup : as.Nodup) (hsingle : ∀ a ∈ as, ∀ b ∈ as, a = b)
    (f : α → β) : (as.map f).Nodup := by
  rcases as with _ | ⟨a, _ | ⟨b, as⟩⟩
  · exact List.nodup_nil
  · simp
  · have heq : a = b := hsingle a (by simp) b (by simp)
    exact absurd (by simp [heq]) (List.nodup_cons.mp hnodup).1

theorem Inv.noOverlap (h : Inv s ls) : NoOverlap s :=
  nodup_map_of_single h.nodup (fun _ hr _ hr' ↦ h.single hr hr') _

theorem running_set (h : Inv s ls) (hi : ls[i]? = some l) (hl : ∀ call handle, l ≠ .calling call handle) :
    ∀ r ∈ s.running, (ls.set i l' ++ [])[r.thread]? = some (.calling r.call r.handle) := by
  intro r hr
  have hne : i ≠ r.thread := by
    intro heq
    subst heq
    exact hl r.call r.handle (Option.some.inj (hi.symm.trans (h.running r hr)))
  rw [List.append_nil, List.getElem?_set_ne hne]
  exact h.running r hr

theorem Inv.same (h : Inv s ls) (hi : ls[i]? = some l) (hmain : s'.main = s.main) (hjni : s'.jni = s.jni)
    (hrunning : s'.running = s.running) (hnew : ∀ x ∈ new, x = .off) : Inv s' (ls.set i l ++ new) := by
  rw [set_of_getElem? hi]
  refine ⟨?_, ?_, ?_, ?_, hrunning ▸ h.nodup⟩
  · rw [hmain]
    exact h.main.append fun x hx ↦ by simp [hnew x hx, HoldsMain]
  · rw [hjni]
    exact h.jni.append fun x hx ↦ by simp [hnew x hx, HoldsJni]
  · rw [hrunning]
    exact fun r hr ↦ getElem?_append_of_some (h.running r hr)
  · rw [hrunning, hjni]
    exact h.apart

theorem Inv.dispatch (h : Inv s ls) (hi : ls[i]? = some l) (hl : ∀ call handle, l ≠ .calling call handle)
    {main jni : Bool} {started : List ℕ} (hmain : Sole HoldsMain main (ls.set i l'))
    (hjni : Sole HoldsJni jni (ls.set i l')) (hapart : ∀ r ∈ s.running, OnMain r.call = true → jni = false) :
    Inv { s with main, jni, started } (ls.set i l' ++ []) where
  main := hmain.append (by simp)
  jni := hjni.append (by simp)
  running r hr := running_set h hi hl r hr
  apart := hapart
  nodup := h.nodup

theorem Inv.enter (h : Inv s ls) {call : NativeCall} (hi : ls[i]? = some (home call)) (handle : ℕ)
    (hidle : OnMain call = true → s.jni = false) :
    Inv { s with running := ⟨i, call, handle⟩ :: s.running } (ls.set i (.calling call handle) ++ []) := by
  have hl : ∀ c k, home call ≠ .calling c k := by
    intro c k
    unfold home
    split <;> simp
  refine ⟨(h.main.keep hi fun hcall ↦ ?_).append (by simp), (h.jni.keep hi fun hcall ↦ ?_).append (by simp),
    fun r hr ↦ ?_, fun r hr hmain ↦ ?_, List.nodup_cons.mpr ⟨fun hmem ↦ ?_, h.nodup⟩⟩
  · have hmain : OnMain call = true := hcall
    rw [home, if_pos hmain]
    trivial
  · have hjni : OnMain call = false := hcall
    rw [home, if_neg (by simp [hjni])]
    trivial
  · rcases List.mem_cons.mp hr with rfl | hr
    · rw [List.append_nil]
      exact getElem?_set_of_some hi
    · exact running_set h hi hl r hr
  · rcases List.mem_cons.mp hr with rfl | hr
    · exact hidle hmain
    · exact h.apart r hr hmain
  · exact hl call handle (Option.some.inj (hi.symm.trans (h.running _ hmem)))

theorem Inv.leave (h : Inv s ls) {call : NativeCall} {handle : ℕ} (hi : ls[i]? = some (.calling call handle)) :
    Inv (s.finish i call handle) (ls.set i (home call) ++ []) := by
  have hmem {r : Running} (hr : r ∈ s.running.erase ⟨i, call, handle⟩) : r ≠ ⟨i, call, handle⟩ ∧ r ∈ s.running :=
    h.nodup.mem_erase_iff.mp hr
  refine ⟨(h.main.keep hi fun hcall ↦ ?_).append (by simp), (h.jni.keep hi fun hcall ↦ ?_).append (by simp),
    fun r hr ↦ ?_, fun r hr ↦ h.apart r (hmem hr).2, h.nodup.erase _⟩
  · unfold home at hcall
    split at hcall
    · assumption
    · exact hcall.elim
  · unfold home at hcall
    split at hcall
    · exact hcall.elim
    · rename_i hjni
      have hfalse : OnMain call = false := by simpa using hjni
      exact hfalse
  · obtain ⟨hne, hr⟩ := hmem hr
    have hthread : i ≠ r.thread := by
      intro heq
      have hplace := h.running r hr
      rw [← heq, hi] at hplace
      obtain ⟨hcall, hhandle⟩ := Place.calling.inj (Option.some.inj hplace)
      exact hne (by rw [heq, hcall, hhandle])
    rw [List.append_nil, List.getElem?_set_ne hthread]
    exact h.running r hr

theorem Inv.call {rounds : ℕ} {op : ManagerOp} {offer r : managerSig.Resp op} (h : Inv s ls) (hi : ls[i]? = some l)
    (hallow : disc.allow l op) (hG : idle s op = true) (hact : act i op offer s = some (r, s')) :
    Inv s' (ls.set i (disc.next l op r) ++ ((spawned rounds op).map fun _ ↦ Place.off).toList) := by
  have hnone : ∀ x ∈ ([] : List Place), x = .off := by simp
  have hone : ∀ x ∈ [Place.off], x = .off := by simp
  -- while a call is made on the main thread, the guard keeps the other dispatcher idle
  have hapart (hidle : (s.running.all fun r ↦ !OnMain r.call) = true) (r : Running) (hr : r ∈ s.running)
      (hmain : OnMain r.call = true) : true = false := by
    have hoff := List.all_eq_true.mp hidle r hr
    simp [hmain] at hoff
  cases op with
  | onMain job =>
    have hl : l = .off := hallow
    subst hl
    obtain ⟨hfree, heq⟩ := Option.ite_none_left_eq_some.mp hact
    cases heq
    have hfree : s.main = false := by simpa using hfree
    have hmain := h.main
    rw [hfree] at hmain
    exact h.dispatch hi (by simp) hmain.acquire (h.jni.keep hi False.elim) h.apart
  | offMain =>
    have hl : l = .main := hallow
    subst hl
    cases hact
    exact h.dispatch hi (by simp) (h.main.release hi trivial False.elim) (h.jni.keep hi False.elim) h.apart
  | start job =>
    have hl : l = .off := hallow
    subst hl
    obtain ⟨hfree, heq⟩ := Option.ite_none_left_eq_some.mp hact
    have hfree : s.jni = false := by simpa using hfree
    have hjni := h.jni
    rw [hfree] at hjni
    split at heq
    · cases heq
      exact h.dispatch hi (by simp) (h.main.keep hi False.elim) hjni.acquire (hapart hG)
    · cases heq
      exact h.dispatch hi (by simp) (h.main.keep hi False.elim) hjni.acquire (hapart hG)
  | onJni job =>
    have hl : l = .off := hallow
    subst hl
    obtain ⟨hfree, heq⟩ := Option.ite_none_left_eq_some.mp hact
    cases heq
    have hfree : s.jni = false := by simpa using hfree
    have hjni := h.jni
    rw [hfree] at hjni
    exact h.dispatch hi (by simp) (h.main.keep hi False.elim) hjni.acquire (hapart hG)
  | offJni =>
    have hl : l = .jni := hallow
    subst hl
    cases hact
    exact h.dispatch hi (by simp) (h.main.keep hi False.elim) (h.jni.release hi trivial False.elim) fun _ _ _ ↦ rfl
  | enter call handle =>
    have hl : l = home call := hallow
    subst hl
    cases hact
    exact h.enter hi handle fun hmain ↦ by simpa [idle, hmain] using hG
  | leave call handle =>
    have hl : l = .calling call handle := hallow
    subst hl
    cases hact
    exact h.leave hi
  | lock =>
    obtain ⟨-, heq⟩ := Option.ite_none_left_eq_some.mp hact
    cases heq
    exact h.same hi rfl rfl rfl hnone
  | launchLoad job chat modelPath =>
    cases hact
    exact h.same hi rfl rfl rfl hone
  | launchResponse job query =>
    cases hact
    exact h.same hi rfl rfl rfl hone
  | launchBenchmark job =>
    cases hact
    exact h.same hi rfl rfl rfl hone
  | loadModel job modelPath =>
    cases offer with
    | none =>
      cases hact
      exact h.same hi rfl rfl rfl hnone
    | some _ =>
      cases hact
      exact h.same hi rfl rfl rfl hnone
  | callback job callback =>
    cases callback <;> cases hact <;> exact h.same hi rfl rfl rfl hnone
  | _ =>
    cases hact
    exact h.same hi rfl rfl rfl hnone

def outline (rounds : ℕ) : Outline (machine rounds) idleDispatcher Place where
  disc := disc
  final _ := True
  entryLocal _ := .off
  spawnLocal _ := .off
  inv := Inv
  entry_wp _ input _ := entry_wp input
  spawn_wp _ _ _ _ _ hp := spawn_wp hp
  inv_start s ls input _ h := by
    refine ⟨h.main.append (by simp [HoldsMain]), h.jni.append (by simp [HoldsJni]), fun r hr ↦ ?_, h.apart, h.nodup⟩
    exact getElem?_append_of_some (h.running r hr)
  inv_call s ls i l op offer r s' hi hallow hG hact h := ⟨trivial, h.call hi hallow hG hact⟩

/-- In every run in which no coroutine is on `jniDispatcher` during a native call on the main
thread, no two native calls overlap. -/
theorem no_overlap (rounds : ℕ) (rows : List ChatMessage) {c : Configuration}
    (h : (machine rounds).Reachable idleDispatcher ⟨.init rows, []⟩ c) : NoOverlap c.shared := by
  have hinit : Inv (.init rows) [] := by
    refine ⟨Sole.nil, Sole.nil, ?_, ?_, List.nodup_nil⟩
    · intro r hr
      cases hr
    · intro r hr
      cases hr
  obtain ⟨ls, -, hinv⟩ := (outline rounds).reachable h (Outline.holds_init _ hinit)
  exact hinv.noOverlap

/-! A response that is stopped -/

def task : Chat := ⟨1, [], 5, true⟩

/-- The model of the task is loaded, the response to a query is on its way in `completionLoop`, and
the stop button is pressed. -/
def stopped : List (Label managerSig Input) :=
  [.start (.load task "m.gguf".toList)] ++ calls 0 8 ++ calls 1 13 ++ [.start (.getResponse "hi".toList)] ++ calls 2 8 ++
  calls 3 7 ++ [.start .stopResponseGeneration] ++ calls 4 6

/-- The native call ends, and then the model is unloaded, up to the native `close`. -/
def unloadedAfter : List (Label managerSig Input) := stopped ++ calls 3 8 ++ [.start .unloadModel] ++ calls 5 10

def unloadedAtOnce : List (Label managerSig Input) := stopped ++ [.start .unloadModel] ++ calls 5 10

theorem unloaded_after_no_overlap : ∃ c, (machine 3).run (fun s _ op ↦ idle s op)
    ⟨.init [], []⟩ unloadedAfter = some c ∧
    c.shared.running = [⟨5, .close, 1⟩] ∧ NoOverlap c.shared := by
  have h : ((machine 3).run (fun s _ op ↦ idle s op) ⟨.init [], []⟩ unloadedAfter).map (fun c ↦ c.shared.running) =
      some [⟨5, .close, 1⟩] := by decide +kernel
  obtain ⟨c, hc, hrunning⟩ := Option.map_eq_some_iff.mp h
  refine ⟨c, hc, hrunning, no_overlap 3 [] ?_⟩
  exact Machine.reachable_of_run _ (fun _ _ ↦ trivial) (fun _ _ _ ↦ id) hc

/-- The native `close` runs on the handle on which `completionLoop` is running. -/
theorem unloaded_at_once_overlap : ∃ c, (machine 3).run (fun _ _ _ ↦ true) ⟨.init [], []⟩ unloadedAtOnce = some c ∧
    c.shared.running = [⟨5, .close, 1⟩, ⟨3, .completionLoop, 1⟩] ∧ ¬NoOverlap c.shared := by
  have h : ((machine 3).run (fun _ _ _ ↦ true) ⟨.init [], []⟩ unloadedAtOnce).map (fun c ↦ c.shared.running) =
      some [⟨5, .close, 1⟩, ⟨3, .completionLoop, 1⟩] := by decide +kernel
  obtain ⟨c, hc, hrunning⟩ := Option.map_eq_some_iff.mp h
  refine ⟨c, hc, hrunning, ?_⟩
  rw [NoOverlap, hrunning]
  decide

end Aigentik.NativeOverlap
