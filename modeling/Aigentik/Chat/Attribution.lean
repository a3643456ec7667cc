import Aigentik.Chat.ChatSteps

namespace Aigentik.Attribution

open Strings Effects ChatScreen ChatCoroutines ChatInvariant

/-- A query is sent in the chat whose model was loaded last, and that load has made the
instance; a load for another chat waits for the responses; no instance comes under a response. -/
def settled : Guard chatSig Shared ChatEvent where
  start _ _ := True
  call s _
    | .launchResponse _ chat _ =>
      s.manager.chat.map Chat.id = some chat.id ∧ s.native.map Instance.job = s.manager.modelInitJob
    | .load _ chat _ => ∀ e ∈ s.responses.entries, e.2.phase ≠ .over → e.1 ∉ s.cancelled → e.2.chatId = chat.id
    | .setNativePtr .. => Quiet s
    | _ => True

theorem exists_instance {s s' : Shared} {op : ChatOp} {offer r : chatSig.Resp op}
    (ha : act op offer s = some (r, s')) (hnone : s.native = none → act op offer s = none) :
    ∃ inst, s.native = some inst := by
  cases hnative : s.native with
  | none =>
    rw [hnone hnative] at ha
    cases ha
  | some inst => exact ⟨inst, rfl⟩

theorem inv_call {rounds : ℕ} {s s' : Shared} {ls : List Local} {i : ℕ} {l : Local} {op : ChatOp}
    {offer r : chatSig.Resp op} (hi : ls[i]? = some l) (hallow : disc.allow l op) (hG : settled.call s i op)
    (ha : act op offer s = some (r, s')) (h : Inv s ls) : disc.may l op r ∧
      Inv s' (ls.set i (disc.next l op r) ++ ((spawned rounds op).map fun _ ↦ spawnLocal op).toList) := by
  have hlink := h.link i l hi
  cases op with
  | onMain job =>
    obtain ⟨hmain, -, hjob⟩ := hallow
    obtain ⟨hfree, heq⟩ := Option.ite_none_left_eq_some.mp ha
    cases heq
    refine ⟨trivial, h.onMain hi hmain (by simpa using hfree) _ fun hactive k hk ↦ ?_⟩
    rw [hjob, hk] at hactive
    exact of_decide_eq_true hactive
  | offMain =>
    cases ha
    exact ⟨trivial, h.offMain hi hallow⟩
  | startLoad job =>
    obtain ⟨hmain, -, chat, hrole⟩ := hallow
    obtain ⟨hfree, heq⟩ := Option.ite_none_left_eq_some.mp ha
    have hfree : s.jni = false := by simpa using hfree
    by_cases hcancelled : job ∈ s.cancelled
    · rw [if_pos hcancelled] at heq
      cases heq
      exact ⟨trivial, h.onJni hi hfree false nofun⟩
    · rw [if_neg hcancelled] at heq
      cases heq
      exact ⟨trivial, h.startLoad hi hmain hfree hrole hcancelled⟩
  | startResponse job =>
    obtain ⟨-, -, chatId, hrole⟩ := hallow
    obtain ⟨hfree, heq⟩ := Option.ite_none_left_eq_some.mp ha
    have hfree : s.jni = false := by simpa using hfree
    by_cases hcancelled : job ∈ s.cancelled
    · rw [if_pos hcancelled] at heq
      cases heq
      exact ⟨trivial, h.onJni hi hfree false nofun⟩
    · rw [if_neg hcancelled] at heq
      cases heq
      exact ⟨trivial, h.startResponse hi hfree hrole hcancelled⟩
  | onJni job =>
    obtain ⟨-, -, hjob⟩ := hallow
    obtain ⟨hfree, heq⟩ := Option.ite_none_left_eq_some.mp ha
    cases heq
    refine ⟨trivial, h.onJni hi (by simpa using hfree) _ fun hactive k hk ↦ ?_⟩
    obtain rfl : job = k := Option.some.inj (hjob.symm.trans hk)
    exact of_decide_eq_true hactive
  | offJni =>
    cases ha
    exact ⟨trivial, h.offJni hi hallow⟩
  | isActive job =>
    cases ha
    refine ⟨fun k chatId current hrole hactive ↦ ?_, h.same hi idle_nil⟩
    obtain rfl : k = job := by
      have hjob : l.role.job = some job := hallow
      simpa [hrole, Role.job] using hjob
    exact (hlink.response k chatId _ hrole).read current rfl (of_decide_eq_true hactive)
  | newJob =>
    cases ha
    exact ⟨trivial, h.newJob hi hallow⟩
  | canSend =>
    cases ha
    refine ⟨trivial, ?_⟩
    by_cases hsend : s.modelLoadingState = .success ∧ s.chat.llmModelId ≠ -1
    · rw [decide_eq_true hsend]
      exact h.canSend hi hallow hsend.1
    · rw [decide_eq_false hsend]
      exact h.same hi idle_nil
  | setLoadingState state =>
    cases ha
    exact ⟨trivial, h.setLoadingState hi hallow.1 hallow.2⟩
  | load job chat modelPath =>
    obtain ⟨hmain, hrole, howned, hseen⟩ := hallow
    cases ha
    exact ⟨trivial, h.load hi hmain hrole howned hseen hG⟩
  | unload =>
    cases ha
    have hcancelled := (h.cancel s.manager.responseGenerationJob).cancel s.manager.modelInitJob
    exact ⟨trivial, (hcancelled.unload.frame _ _ _ false _).same hi idle_nil⟩
  | stopResponseGeneration =>
    cases ha
    exact ⟨trivial, ((h.cancel s.manager.responseGenerationJob).frame _ _ _ _ false).same hi idle_nil⟩
  | setInstanceLoaded job =>
    obtain ⟨hmain, hactive, chat, added, hrole⟩ := hallow
    have hentry := (hlink.load job chat _ hrole).entry
    simp only [act, hentry] at ha
    cases ha
    exact ⟨trivial, h.setInstanceLoaded hi hmain hactive hrole⟩
  | launchResponse job chat query =>
    obtain ⟨hmain, hrole, howned, hseen⟩ := hallow
    cases ha
    have hcancelled := h.cancel s.manager.responseGenerationJob
    exact ⟨trivial, (hcancelled.launchResponse hi hrole howned hseen hG.1 hG.2).frame _ _ (some job) _ _⟩
  | endInference job =>
    cases ha
    exact ⟨trivial, (h.endInference hi hallow).frame _ _ _ _ false⟩
  | readChat job =>
    obtain ⟨chatId, hrole⟩ := hallow
    cases ha
    exact ⟨trivial, h.readChat hi hrole⟩
  | setNativePtr job storeChats =>
    obtain ⟨chat, hrole⟩ := hallow
    cases ha
    exact ⟨trivial, h.setNativePtr hi hrole hG storeChats⟩
  | addChatMessage job message =>
    obtain ⟨hjni, hactive, chat, added, todo, hrole⟩ := hallow
    obtain ⟨inst, hnative⟩ := exists_instance ha fun hnone ↦ by simp only [act, hnone]
    simp only [act, hnative] at ha
    cases ha
    exact ⟨trivial, h.addChatMessage hi hjni hactive hrole hnative⟩
  | startCompletion job chatId query =>
    obtain ⟨inst, hnative⟩ := exists_instance ha fun hnone ↦ by simp only [act, hnone]
    simp only [act, hnative] at ha
    cases ha
    refine ⟨trivial, h.respond hi hallow.2 (inst.say chatId "user" query) hnative rfl
        (fun hof ↦ hof.say "user" query) fun p hp ↦ ?_⟩
    rcases List.mem_append.mp hp with hp | hp
    · exact .inr hp
    · exact .inl (List.mem_singleton.mp hp)
  | completionLoop job chatId =>
    obtain ⟨inst, hnative⟩ := exists_instance ha fun hnone ↦ by simp only [act, hnone]
    simp only [act, hnative] at ha
    cases ha
    refine ⟨trivial, h.respond hi hallow.2 _ hnative ?_ (fun hof ↦ ?_) fun p hp ↦ ?_⟩
    · cases offer <;> rfl
    · cases offer with
      | piece text => exact hof.congr rfl rfl
      | endOfGeneration => exact hof.answer
      | error => exact hof
    · rcases List.mem_append.mp hp with hp | hp
      · exact .inr hp
      · exact .inl (List.mem_singleton.mp hp)
  | stopCompletion job chatId =>
    obtain ⟨inst, hnative⟩ := exists_instance ha fun hnone ↦ by simp only [act, hnone]
    simp only [act, hnative] at ha
    cases ha
    refine ⟨trivial, h.stopCompletion hi hallow.2 hnative ?_ fun hof ↦ ?_⟩
    · split <;> rfl
    · split
      · exact hof.answer
      · exact hof.congr rfl rfl
  | getMessagesForModel job chatId =>
    obtain ⟨chat, added, hrole, rfl⟩ := hallow
    cases ha
    refine ⟨trivial, h.getMessagesForModel hi hrole fun m hm ↦ ?_⟩
    exact of_decide_eq_true (List.mem_filter.mp hm).2
  | addAssistantMessage job sent chatId message =>
    cases ha
    exact ⟨trivial, (h.addAssistantMessage hi hallow.1 hallow.2).frame _ _ _ _ _⟩
  | setChat _ | beginInference _ | addUserMessage _ _ | deleteMessages _ =>
    cases ha
    exact ⟨trivial, (h.same hi idle_nil).frame _ _ _ _ _⟩
  | getChat | isInstanceLoaded | isInferenceOn | nativeLoad _ | getModelFromId _ | insertChat =>
    cases ha
    exact ⟨trivial, h.same hi idle_nil⟩
  | launchLoadModel _ | launchStore _ _ =>
    cases ha
    refine ⟨trivial, h.same hi fun x hx ↦ ?_⟩
    exact List.mem_singleton.mp hx

def outline (rounds : ℕ) : Outline (machine rounds) settled Local where
  disc := disc
  final _ := True
  entryLocal _ := {}
  spawnLocal := spawnLocal
  inv := Inv
  entry_wp _ event _ := onEvent_wp event
  spawn_wp _ _ op p _ hp := spawn_wp op p hp
  inv_start s ls event _ h := by
    refine ⟨h.main.append (by simp), h.jni.append (by simp), fun job ↦ (h.jobs job).append ?_, fun i l hi ↦ ?_, h.sound⟩
    · simp [number, Role.job]
    · rw [List.getElem?_append] at hi
      split at hi
      · exact h.link i l hi
      · rw [List.mem_singleton.mp (List.mem_of_getElem? hi)]
        exact link_idle s
  inv_call s ls i l op offer r s' hi hallow hG ha h := inv_call hi hallow hG ha h

theorem inv_opened (defaultChat : Chat) (messages : List ChatMessage) : Inv (.init defaultChat messages) [{}] := by
  have hone {p : Local → Prop} {locked : Bool} (hp : ¬p {}) : Sole p locked [{}] :=
    Sole.nil.append fun x hx ↦ List.mem_singleton.mp hx ▸ hp
  refine ⟨hone nofun, hone nofun, fun job ↦ hone nofun, fun i l hi ↦ ?_, ?_⟩
  · rw [List.mem_singleton.mp (List.mem_of_getElem? hi)]
    exact link_idle _
  · exact ⟨nofun, nofun, nofun, nofun, nofun, nofun, nofun, nofun, List.nodup_nil⟩

/-- In every run that keeps to the condition, the answer to a query comes from an instance
with the messages of its chat, and is stored under that chat, once. -/
theorem attributed (rounds : ℕ) (defaultChat : Chat) (messages : List ChatMessage) (c : Configuration)
    (h : (machine rounds).Reachable settled (opened defaultChat messages) c) : Attributed c.shared := by
  have hopened : (outline rounds).Holds (opened defaultChat messages) :=
    ⟨[{}], .cons (loadModelCoroutine_wp defaultChat) .nil, inv_opened defaultChat messages⟩
  obtain ⟨ls, -, hinv⟩ := (outline rounds).reachable h hopened
  exact hinv.sound.attributed

/-! Runs with two chats -/

def chatA : Chat := ⟨1, "A".toList, 5, false⟩

def chatB : Chat := ⟨2, "B".toList, 5, false⟩

/-- The condition, as a check. -/
def settledCheck (s : Shared) (_ : ℕ) : ChatOp → Bool
  | .launchResponse _ chat _ =>
    s.manager.chat.map Chat.id = some chat.id ∧ s.native.map Instance.job = s.manager.modelInitJob
  | .load _ chat _ => ∀ e ∈ s.responses.entries, e.2.phase ≠ .over → e.1 ∉ s.cancelled → e.2.chatId = chat.id
  | .setNativePtr .. => ∀ e ∈ s.responses.entries, ¬Awaits s e.1 e.2
  | _ => true

theorem settled_of_check {s : Shared} {i : ℕ} {op : ChatOp} (h : settledCheck s i op = true) : settled.call s i op := by
  cases op with
  | launchResponse job chat query =>
    unfold settledCheck at h
    have hcall := of_decide_eq_true h
    exact hcall
  | load job chat modelPath =>
    unfold settledCheck at h
    have hcall := of_decide_eq_true h
    exact hcall
  | setNativePtr job storeChats =>
    unfold settledCheck at h
    have hcall := of_decide_eq_true h
    exact hcall
  | _ => trivial

def loading : List (Label chatSig ChatEvent) := calls 0 6 ++ calls 1 16

def asking : List (Label chatSig ChatEvent) :=
  loading ++ [.start (.sendUserQuery "hi".toList)] ++ calls 2 8 ++ calls 4 16

/-- A query is sent right after another chat has been opened. -/
def hurrying : List (Label chatSig ChatEvent) :=
  loading ++ [.start (.switchChat chatB)] ++ calls 2 6 ++ [.start (.sendUserQuery "hi".toList)] ++ calls 4 8 ++
    calls 6 9

theorem asking_attributed : ∃ c, (machine 3).Reachable settled (opened chatA []) c ∧
    c.shared.stored = [⟨1, 1, 1⟩] ∧ Attributed c.shared := by
  have h : ((machine 3).run settledCheck (opened chatA []) asking).map (fun c ↦ c.shared.stored) =
      some [⟨1, 1, 1⟩] := by decide +kernel
  obtain ⟨c, hc, hstored⟩ := Option.map_eq_some_iff.mp h
  have hreach := Machine.reachable_of_run (G := settled) _ (fun _ _ ↦ trivial) (fun _ _ _ ↦ settled_of_check) hc
  exact ⟨c, hreach, hstored, attributed 3 chatA [] c hreach⟩

/-- The answer comes from the instance of the first chat, and is stored under that chat. -/
theorem hurrying_misattributed : ∃ c, (machine 3).Reachable Guard.free (opened chatA []) c ∧
    c.shared.generated.map (fun p ↦ (p.1, p.2.messages.map Spoken.chatId)) = [(2, [1]), (2, [1, 2])] ∧
    c.shared.stored = [⟨1, 2, 1⟩] ∧ ¬Attributed c.shared := by
  have h : ((machine 3).run (fun _ _ _ ↦ true) (opened chatA []) hurrying).map (fun c ↦
      (c.shared.generated.map fun p ↦ (p.1, p.2.messages.map Spoken.chatId), c.shared.stored)) =
        some ([(2, [1]), (2, [1, 2])], [⟨1, 2, 1⟩]) := by decide +kernel
  obtain ⟨c, hc, heq⟩ := Option.map_eq_some_iff.mp h
  obtain ⟨hgenerated, hstored⟩ := Prod.mk.inj heq
  have hreach := Machine.reachable_of_run (G := Guard.free) _ (fun _ _ ↦ trivial) (fun _ _ _ _ ↦ trivial) hc
  refine ⟨c, hreach, hgenerated, hstored, fun hattributed ↦ ?_⟩
  have hunder : (1 : ℕ) = 2 := hattributed.stored ⟨1, 2, 1⟩ (by rw [hstored]; exact List.mem_cons_self)
  cases hunder

end Aigentik.Attribution
