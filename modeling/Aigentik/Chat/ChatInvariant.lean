import Aigentik.Chat.ChatCoroutines
import Mathlib.Data.List.Nodup

namespace Aigentik.ChatInvariant

open Strings Effects ChatScreen ChatCoroutines

/-! Instances -/

/-- The message list of an instance is that of a chat: what a load has put into it for the
chat, and then what has been said in the chat. -/
structure IsOf (chatId : ℕ) (inst : Instance) : Prop where
  opened : ∃ added said, inst.opening = some (chatId, added) ∧ inst.messages = added ++ said
  own : ∀ m ∈ inst.messages, m.chatId = chatId

variable {chatId : ℕ} {inst : Instance}

theorem IsOf.unique {chatId' : ℕ} (h : IsOf chatId inst) (h' : IsOf chatId' inst) : chatId = chatId' := by
  obtain ⟨_, _, hopening, -⟩ := h.opened
  obtain ⟨_, _, hopening', -⟩ := h'.opened
  rw [hopening] at hopening'
  exact congrArg Prod.fst (Option.some.inj hopening')

theorem IsOf.congr {inst' : Instance} (h : IsOf chatId inst) (hopening : inst'.opening = inst.opening)
    (hmessages : inst'.messages = inst.messages) : IsOf chatId inst' := by
  constructor
  · rw [hopening, hmessages]
    exact h.opened
  · rw [hmessages]
    exact h.own

theorem IsOf.say (h : IsOf chatId inst) (role content : Str) : IsOf chatId (inst.say chatId role content) := by
  obtain ⟨added, said, hopening, hmessages⟩ := h.opened
  refine ⟨⟨added, said ++ [⟨chatId, role, content⟩], hopening, ?_⟩, fun m hm ↦ ?_⟩
  · rw [Instance.say, hmessages, List.append_assoc]
  · rcases List.mem_append.mp hm with hm | hm
    · exact h.own m hm
    · rw [List.mem_singleton.mp hm]

theorem IsOf.answer (h : IsOf chatId inst) : IsOf chatId (inst.answer chatId) :=
  (h.say "assistant" inst.response).congr rfl rfl

/-! Loads and responses -/

/-- The response will make native calls, for what is known. -/
def Awaits (s : Shared) (job : ℕ) (response : Response) : Prop :=
  response.phase = .generating ∨ (response.phase = .queued ∧ job ∉ s.cancelled)

instance (s : Shared) (job : ℕ) (response : Response) : Decidable (Awaits s job response) :=
  inferInstanceAs (Decidable (_ ∨ _))

def Quiet (s : Shared) : Prop := ∀ e ∈ s.responses.entries, ¬Awaits s e.1 e.2

theorem quiet_iff {s : Shared} :
    Quiet s ↔ ∀ job response, s.responses.get job = some response → ¬Awaits s job response := by
  simp only [Quiet, SharedMap.get_eq_some, Prod.forall]

/-- The load that the manager has begun last has got as far as its dispatcher. -/
def Started (s : Shared) (job : ℕ) : Prop :=
  s.manager.modelInitJob = some job ∧ ∃ load, s.loads.get job = some load ∧ load.stage ≠ .launched

/-- What the load has done to an instance that it has made. -/
def Fits (load : Load) (inst : Instance) : Prop :=
  match load.stage with
  | .launched | .started => True
  | .filling added _ => inst.messages = added
  | .loaded => IsOf load.chat.id inst

/-- What holds of the load that the manager has begun last. -/
structure Initializes (s : Shared) (job : ℕ) (load : Load) : Prop where
  shown : ∀ chat ∈ s.manager.chat, chat = load.chat
  quiet : ∀ added todo, load.stage = .filling added todo → Quiet s
  tagged : ∀ m ∈ load.contents, m.chatId = load.chat.id
  fits : ∀ inst ∈ s.native, inst.job = job → Fits load inst

/-- The instances of the answers are those of their chats, and each answer is stored once,
under its chat. -/
structure Attributed (s : Shared) : Prop where
  generated : ∀ p ∈ s.generated, IsOf p.1 p.2
  stored : ∀ answer ∈ s.stored, answer.chatId = answer.sent
  once : (s.stored.map Stored.job).Nodup

def StoredBy (s : Shared) (job : ℕ) : Prop := job ∈ s.stored.map Stored.job

structure Sound (s : Shared) : Prop where
  current : ∀ job load, s.loads.get job = some load → job ∉ s.cancelled → s.manager.modelInitJob = some job
  success : s.modelLoadingState = .success →
    ∃ job chat, s.manager.modelInitJob = some job ∧ s.loads.get job = some ⟨chat, .loaded⟩
  init : ∀ job load, s.manager.modelInitJob = some job → s.loads.get job = some load → Initializes s job load
  answering : ∀ job response, s.responses.get job = some response → Awaits s job response →
    ∀ inst ∈ s.native, IsOf response.chatId inst
  reading : ∀ job response, s.responses.get job = some response → response.phase ≠ .over → job ∉ s.cancelled →
    ∀ chat ∈ s.manager.chat, chat.id = response.chatId
  numbered : ∀ job, StoredBy s job → job < s.jobs
  attributed : Attributed s

/-! What the place of a thread says of the shared state -/

structure Loading (s : Shared) (l : Local) (job : ℕ) (chat : Chat) (stage : Stage) : Prop where
  entry : s.loads.get job = some ⟨chat, stage⟩
  main : l.main = true → l.active = true → s.manager.modelInitJob = some job
  jni : l.jni = true → l.active = true → ∀ job', Started s job' → job' = job
  quiet : l.jni = true → l.active = true → ∀ added todo, stage = .filling added todo → Quiet s

structure Responding (s : Shared) (job chatId : ℕ) (place : Place) : Prop where
  entry : s.responses.get job = some ⟨chatId, place.phase⟩
  fresh : place ≠ .over → ¬StoredBy s job
  read : ∀ current, place = .read (some current) → job ∉ s.cancelled → current = chatId

structure Link (s : Shared) (l : Local) : Prop where
  seen : ∀ state, l.seen = some state → l.main = true ∧ s.modelLoadingState = state
  owned : l.role.job = none → ∀ job, l.owned = some job → ¬StoredBy s job
  load : ∀ job chat stage, l.role = .load job chat stage → Loading s l job chat stage
  response : ∀ job chatId place, l.role = .response job chatId place → Responding s job chatId place

/-- The number of a thread's job, or of the job that it is about to launch. -/
def number (l : Local) : Option ℕ := l.role.job <|> l.owned

structure Inv (s : Shared) (ls : List Local) : Prop where
  main : Sole (fun l ↦ l.main = true) s.main ls
  jni : Sole (fun l ↦ l.jni = true) s.jni ls
  jobs : ∀ job, Sole (fun l ↦ number l = some job) (decide (job < s.jobs)) ls
  link : ∀ (i : ℕ) (l : Local), ls[i]? = some l → Link s l
  sound : Sound s

variable {s s' : Shared} {ls new : List Local} {i : ℕ} {l l' : Local} {job : ℕ}

theorem moveLoad_eq {load : Load} (f : Load → Stage) (h : s.loads.get job = some load) :
    s.moveLoad job f = { s with loads := s.loads.put job ⟨load.chat, f load⟩ } := by
  simp only [Shared.moveLoad, h]

theorem moveResponse_eq {response : Response} (phase : Phase) (h : s.responses.get job = some response) :
    s.moveResponse job phase = { s with responses := s.responses.put job ⟨response.chatId, phase⟩ } := by
  simp only [Shared.moveResponse, h]

/-! The shared state after a step -/

theorem Awaits.of_cancelled {response : Response} (h : Awaits s' job response)
    (hsub : job ∈ s.cancelled → job ∈ s'.cancelled) : Awaits s job response :=
  Or.imp_right (fun hqueued ↦ ⟨hqueued.1, fun hmem ↦ hqueued.2 (hsub hmem)⟩) h

theorem Quiet.mono (h : Quiet s) (hresponses : s'.responses = s.responses)
    (hsub : ∀ job ∈ s.cancelled, job ∈ s'.cancelled) : Quiet s' := by
  intro e he hawaits
  rw [hresponses] at he
  exact h e he (hawaits.of_cancelled (hsub e.1))

theorem Quiet.moveResponse (h : Quiet s) {phase phase' : Phase} (hget : s.responses.get job = some ⟨chatId, phase⟩)
    (hawaits : Awaits s job ⟨chatId, phase'⟩ → Awaits s job ⟨chatId, phase⟩) :
    Quiet { s with responses := s.responses.put job ⟨chatId, phase'⟩ } := by
  refine quiet_iff.mpr fun k response hk hk' ↦ ?_
  rcases SharedMap.get_put_some.mp hk with ⟨rfl, rfl⟩ | ⟨hk, -⟩
  · exact quiet_iff.mp h k _ hget (hawaits hk')
  · exact quiet_iff.mp h k response hk hk'

theorem Sound.frame (h : Sound s) (main jni : Bool) (chat : Chat) (messages : List ChatMessage)
    (responseGenerationJob : Option ℕ) (isInstanceLoaded isInferenceOn : Bool) :
    Sound { s with main, jni, chat, messages, manager :=
      { s.manager with responseGenerationJob, isInstanceLoaded, isInferenceOn } } where
  current := h.current
  success := h.success
  init job load hinit hget :=
    have hinit := h.init job load hinit hget
    ⟨hinit.shown, hinit.quiet, hinit.tagged, hinit.fits⟩
  answering := h.answering
  reading := h.reading
  numbered := h.numbered
  attributed := ⟨h.attributed.generated, h.attributed.stored, h.attributed.once⟩

theorem Sound.cancel (h : Sound s) (job : Option ℕ) : Sound (s.cancel job) := by
  have hsub : ∀ k ∈ s.cancelled, k ∈ (s.cancel job).cancelled := fun k hk ↦ List.mem_append_right _ hk
  refine ⟨fun k load hget hk ↦ h.current k load hget fun hmem ↦ hk (hsub k hmem), h.success, fun k load hinit hget ↦ ?_,
    fun k response hget hawaits ↦ h.answering k response hget (hawaits.of_cancelled (hsub k)),
    fun k response hget hphase hk ↦ h.reading k response hget hphase fun hmem ↦ hk (hsub k hmem), h.numbered,
    ⟨h.attributed.generated, h.attributed.stored, h.attributed.once⟩⟩
  have hinit := h.init k load hinit hget
  exact ⟨hinit.shown, fun added todo hstage ↦ (hinit.quiet added todo hstage).mono rfl hsub, hinit.tagged, hinit.fits⟩

theorem Sound.unload (h : Sound s) : Sound { s with native := none, manager := { s.manager with chat := none } } := by
  refine ⟨h.current, h.success, fun k load hinit hget ↦ ?_, fun k response _ _ inst hinst ↦ ?_,
    fun k response _ _ _ chat hchat ↦ ?_, h.numbered,
    ⟨h.attributed.generated, h.attributed.stored, h.attributed.once⟩⟩
  · have hinit := h.init k load hinit hget
    refine ⟨fun chat hchat ↦ ?_, hinit.quiet, hinit.tagged, fun inst hinst ↦ ?_⟩
    · cases hchat
    · cases hinst
  · cases hinst
  · cases hchat

theorem Sound.newJob (h : Sound s) : Sound { s with jobs := s.jobs + 1 } := by
  refine ⟨h.current, h.success, fun k load hinit hget ↦ ?_, h.answering, h.reading, fun k hk ↦ ?_,
    ⟨h.attributed.generated, h.attributed.stored, h.attributed.once⟩⟩
  · have hinit := h.init k load hinit hget
    exact ⟨hinit.shown, hinit.quiet, hinit.tagged, hinit.fits⟩
  · exact Nat.lt_succ_of_lt (h.numbered k hk)

theorem Sound.setLoadingState (h : Sound s) (state : ModelLoadingState) (hsuccess : state = .success →
    ∃ job chat, s.manager.modelInitJob = some job ∧ s.loads.get job = some ⟨chat, .loaded⟩) :
    Sound { s with modelLoadingState := state } := by
  refine ⟨h.current, hsuccess, fun k load hinit hget ↦ ?_, h.answering, h.reading, h.numbered,
    ⟨h.attributed.generated, h.attributed.stored, h.attributed.once⟩⟩
  have hinit := h.init k load hinit hget
  exact ⟨hinit.shown, hinit.quiet, hinit.tagged, hinit.fits⟩

/-- A new load; no other chat has a response that will read the chat. -/
theorem Sound.load (h : Sound s) {chat : Chat} (hstate : s.modelLoadingState ≠ .success)
    (hread : ∀ e ∈ s.responses.entries, e.2.phase ≠ .over → e.1 ∉ s.cancelled → e.2.chatId = chat.id) :
    Sound { s.cancel s.manager.modelInitJob with
      manager.chat := some chat, manager.modelInitJob := some job, loads := s.loads.put job ⟨chat, .launched⟩ } := by
  have hsub : ∀ k ∈ s.cancelled, k ∈ (s.cancel s.manager.modelInitJob).cancelled :=
    fun k hk ↦ List.mem_append_right _ hk
  refine ⟨fun k load hget hk ↦ ?_, fun hsuccess ↦ absurd hsuccess hstate, fun k load hinit hget ↦ ?_,
    fun k response hget hawaits ↦ h.answering k response hget (hawaits.of_cancelled (hsub k)),
    fun k response hget hphase hk c hc ↦ ?_, h.numbered,
    ⟨h.attributed.generated, h.attributed.stored, h.attributed.once⟩⟩
  · rcases SharedMap.get_put_some.mp hget with ⟨rfl, -⟩ | ⟨hget, -⟩
    · rfl
    · have hcurrent := h.current k load hget fun hmem ↦ hk (hsub k hmem)
      have hmem : k ∈ (s.cancel s.manager.modelInitJob).cancelled := by
        rw [Shared.cancel, hcurrent]
        exact List.mem_cons_self
      exact absurd hmem hk
  · obtain rfl : job = k := Option.some.inj hinit
    rw [SharedMap.get_put_self] at hget
    obtain rfl := Option.some.inj hget
    exact ⟨fun c hc ↦ (Option.some.inj hc).symm, nofun, nofun, fun _ _ _ ↦ trivial⟩
  · obtain rfl : chat = c := Option.some.inj hc
    exact (hread _ (SharedMap.get_eq_some.mp hget) hphase fun hmem ↦ hk (hsub k hmem)).symm

theorem Sound.moveLoad (h : Sound s) {chat : Chat} {stage : Stage} (stage' : Stage) (native : Option Instance)
    (hget : s.loads.get job = some ⟨chat, stage⟩) (hloaded : stage = .loaded → stage' = .loaded)
    (hself : s.manager.modelInitJob = some job → Initializes { s with native } job ⟨chat, stage'⟩)
    (hother : ∀ k load, s.manager.modelInitJob = some k → k ≠ job → s.loads.get k = some load →
      ∀ inst ∈ native, inst.job = k → Fits load inst)
    (hanswering : ∀ k response, s.responses.get k = some response → Awaits s k response →
      ∀ inst ∈ native, IsOf response.chatId inst) :
    Sound { s with native, loads := s.loads.put job ⟨chat, stage'⟩ } := by
  refine ⟨fun k load hk hnot ↦ ?_, fun hsuccess ↦ ?_, fun k load hinit hk ↦ ?_, hanswering, h.reading, h.numbered,
    ⟨h.attributed.generated, h.attributed.stored, h.attributed.once⟩⟩
  · rcases SharedMap.get_put_some.mp hk with ⟨rfl, -⟩ | ⟨hk, -⟩
    · exact h.current k _ hget hnot
    · exact h.current k load hk hnot
  · obtain ⟨k, c, hinit, hk⟩ := h.success hsuccess
    by_cases hne : k = job
    · subst hne
      rw [hget] at hk
      have hstage : stage = .loaded := congrArg Load.stage (Option.some.inj hk)
      refine ⟨k, chat, hinit, ?_⟩
      rw [hloaded hstage]
      exact SharedMap.get_put_self
    · exact ⟨k, c, hinit, (SharedMap.get_put_of_ne hne).trans hk⟩
  · rcases SharedMap.get_put_some.mp hk with ⟨rfl, rfl⟩ | ⟨hk, hne⟩
    · have hinit := hself hinit
      exact ⟨hinit.shown, hinit.quiet, hinit.tagged, hinit.fits⟩
    · have hold := h.init k load hinit hk
      exact ⟨hold.shown, hold.quiet, hold.tagged, hother k load hinit hne hk⟩

/-- A response goes on, and makes no more native calls than before. -/
theorem Sound.moveResponse (h : Sound s) {phase phase' : Phase} (hget : s.responses.get job = some ⟨chatId, phase⟩)
    (hawaits : Awaits s job ⟨chatId, phase'⟩ → Awaits s job ⟨chatId, phase⟩) (hover : phase = .over → phase' = .over) :
    Sound { s with responses := s.responses.put job ⟨chatId, phase'⟩ } := by
  refine ⟨h.current, h.success, fun k load hinit hk ↦ ?_, fun k response hk hk' ↦ ?_, fun k response hk hphase ↦ ?_,
    h.numbered, ⟨h.attributed.generated, h.attributed.stored, h.attributed.once⟩⟩
  · have hinit := h.init k load hinit hk
    exact ⟨hinit.shown, fun added todo hstage ↦ (hinit.quiet added todo hstage).moveResponse hget hawaits, hinit.tagged,
      hinit.fits⟩
  · rcases SharedMap.get_put_some.mp hk with ⟨rfl, rfl⟩ | ⟨hk, -⟩
    · exact h.answering k ⟨chatId, phase⟩ hget (hawaits hk')
    · exact h.answering k response hk hk'
  · rcases SharedMap.get_put_some.mp hk with ⟨rfl, rfl⟩ | ⟨hk, -⟩
    · exact h.reading k ⟨chatId, phase⟩ hget fun hphase' ↦ hphase (hover hphase')
    · exact h.reading k response hk hphase

theorem Sound.respond (h : Sound s) {inst inst' : Instance}
    (hget : s.responses.get job = some ⟨chatId, .generating⟩) (hnative : s.native = some inst)
    (hjob : inst'.job = inst.job) (hinst : IsOf chatId inst → IsOf chatId inst') {generated : List (ℕ × Instance)}
    (hgenerated : ∀ p ∈ generated, p = (chatId, inst) ∨ p ∈ s.generated) :
    Sound { s with native := some inst', generated } := by
  have hof : IsOf chatId inst := h.answering job _ hget (.inl rfl) inst hnative
  refine ⟨h.current, h.success, fun k load hinit hk ↦ ?_, fun k response hk hk' i hi ↦ ?_, h.reading, h.numbered,
    ⟨fun p hp ↦ ?_, h.attributed.stored, h.attributed.once⟩⟩
  · have hinit := h.init k load hinit hk
    refine ⟨hinit.shown, hinit.quiet, hinit.tagged, fun i hi hik ↦ ?_⟩
    obtain rfl := Option.some.inj hi
    have hfits := hinit.fits inst hnative (hjob ▸ hik)
    unfold Fits at hfits ⊢
    cases hstage : load.stage with
    | launched => trivial
    | started => trivial
    | filling added todo => exact absurd (.inl rfl) (quiet_iff.mp (hinit.quiet added todo hstage) job _ hget)
    | loaded =>
      rw [hstage] at hfits
      have hchat : load.chat.id = chatId := IsOf.unique hfits hof
      exact hchat ▸ hinst hof
  · obtain rfl := Option.some.inj hi
    have hchat : response.chatId = chatId := (h.answering k response hk hk' inst hnative).unique hof
    exact hchat ▸ hinst hof
  · rcases hgenerated p hp with rfl | hp
    · exact hof
    · exact h.attributed.generated p hp

/-- A response to a query in the chat that the model is loaded for. -/
theorem Sound.launchResponse (h : Sound s) {chat : Chat} (hstate : s.modelLoadingState = .success)
    (hchat : s.manager.chat.map Chat.id = some chat.id)
    (hnative : s.native.map Instance.job = s.manager.modelInitJob) :
    Sound { s with responses := s.responses.put job ⟨chat.id, .queued⟩ } := by
  obtain ⟨k, c, hinit, hget⟩ := h.success hstate
  have hk := h.init k _ hinit hget
  obtain ⟨current, hcurrent, hid⟩ := Option.map_eq_some_iff.mp hchat
  obtain rfl : current = c := hk.shown current hcurrent
  refine ⟨h.current, h.success, fun k' load hinit' hget' ↦ ?_, fun k' response hk' hawaits inst hinst ↦ ?_,
    fun k' response hk' hphase hnot chat' hchat' ↦ ?_, h.numbered,
    ⟨h.attributed.generated, h.attributed.stored, h.attributed.once⟩⟩
  · obtain rfl : k = k' := Option.some.inj (hinit.symm.trans hinit')
    obtain rfl := Option.some.inj (hget.symm.trans hget')
    exact ⟨hk.shown, nofun, hk.tagged, hk.fits⟩
  · rcases SharedMap.get_put_some.mp hk' with ⟨rfl, rfl⟩ | ⟨hk', -⟩
    · have hjob : some inst.job = some k := by
        rw [← hinit, ← hnative, hinst]
        rfl
      have hfits := hk.fits inst hinst (Option.some.inj hjob)
      exact hid ▸ hfits
    · exact h.answering k' response hk' hawaits inst hinst
  · rcases SharedMap.get_put_some.mp hk' with ⟨rfl, rfl⟩ | ⟨hk', -⟩
    · rw [hk.shown chat' hchat']
      exact hid
    · exact h.reading k' response hk' hphase hnot chat' hchat'

theorem Sound.store (h : Sound s) {sent : ℕ} (hjob : job < s.jobs) (hfresh : ¬StoredBy s job) (hsent : sent = chatId) :
    Sound { s with stored := s.stored ++ [⟨job, sent, chatId⟩] } := by
  refine ⟨h.current, h.success, fun k load hinit hk ↦ ?_, h.answering, h.reading, fun k hk ↦ ?_,
    ⟨h.attributed.generated, fun answer hanswer ↦ ?_, ?_⟩⟩
  · have hinit := h.init k load hinit hk
    exact ⟨hinit.shown, hinit.quiet, hinit.tagged, hinit.fits⟩
  · simp only [StoredBy, List.map_append, List.mem_append, List.map_cons, List.map_nil, List.mem_singleton] at hk
    rcases hk with hk | rfl
    · exact h.numbered k hk
    · exact hjob
  · rcases List.mem_append.mp hanswer with hanswer | hanswer
    · exact h.attributed.stored answer hanswer
    · rw [List.mem_singleton.mp hanswer]
      exact hsent.symm
  · rw [List.map_append]
    refine h.attributed.once.append (List.nodup_singleton _) (List.disjoint_singleton.mpr hfresh)

/-! The other threads -/

/-- What a step of another thread leaves to this one. -/
structure Leaves (s s' : Shared) (x : Local) : Prop where
  state : x.main = true → s'.modelLoadingState = s.modelLoadingState := by intros; rfl
  init : x.main = true → s'.manager.modelInitJob = s.manager.modelInitJob := by intros; rfl
  stored : ∀ job, number x = some job → StoredBy s' job → StoredBy s job := by exact fun _ _ h ↦ h
  cancelled : ∀ job ∈ s.cancelled, job ∈ s'.cancelled := by exact fun _ h ↦ h
  loads : ∀ job, number x = some job → s'.loads.get job = s.loads.get job := by intros; rfl
  responses : ∀ job, number x = some job → s'.responses.get job = s.responses.get job := by intros; rfl
  started : x.jni = true → ∀ job, Started s' job → Started s job := by exact fun _ _ h ↦ h
  quiet : x.jni = true → x.active = true → (∃ job chat added todo, x.role = .load job chat (.filling added todo)) →
    Quiet s → Quiet s' := by exact fun _ _ _ h ↦ h

/-- A step that changes nothing that a thread knows of. -/
theorem Leaves.of_eq {x : Local} (hstate : s'.modelLoadingState = s.modelLoadingState)
    (hinit : s'.manager.modelInitJob = s.manager.modelInitJob) (hstored : s'.stored = s.stored)
    (hcancelled : s'.cancelled = s.cancelled) (hloads : s'.loads = s.loads) (hresponses : s'.responses = s.responses) :
    Leaves s s' x where
  state _ := hstate
  init _ := hinit
  stored job _ h := by rwa [StoredBy, hstored] at h
  cancelled job h := hcancelled ▸ h
  loads job _ := by rw [hloads]
  responses job _ := by rw [hresponses]
  started _ job h := by rwa [Started, hinit, hloads] at h
  quiet _ _ _ h := h.mono hresponses fun job hjob ↦ hcancelled ▸ hjob

theorem number_of_role (h : l.role.job = some job) : number l = some job := by
  rw [number, h]
  rfl

theorem number_of_owned (h : l.role.job = none) : number l = l.owned := by
  rw [number, h]
  rfl

theorem Link.mono (h : Link s l) (hs : Leaves s s' l) : Link s' l := by
  refine ⟨fun state hseen ↦ ?_, fun hrole job hjob hstored ↦ ?_, fun job chat stage hrole ↦ ?_,
    fun job chatId place hrole ↦ ?_⟩
  · obtain ⟨hmain, hstate⟩ := h.seen state hseen
    exact ⟨hmain, (hs.state hmain).trans hstate⟩
  · have hnumber : number l = some job := (number_of_owned hrole).trans hjob
    exact h.owned hrole job hjob (hs.stored job hnumber hstored)
  · have hnumber : number l = some job := number_of_role (congrArg Role.job hrole)
    have hload := h.load job chat stage hrole
    refine ⟨(hs.loads job hnumber).trans hload.entry,
      fun hmain hactive ↦ (hs.init hmain).trans (hload.main hmain hactive),
      fun hjni hactive job' hstarted ↦ hload.jni hjni hactive job' (hs.started hjni job' hstarted),
      fun hjni hactive added todo hstage ↦ ?_⟩
    refine hs.quiet hjni hactive ⟨job, chat, added, todo, ?_⟩ (hload.quiet hjni hactive added todo hstage)
    rw [hrole, hstage]
  · have hnumber : number l = some job := number_of_role (congrArg Role.job hrole)
    have hresponse := h.response job chatId place hrole
    exact ⟨(hs.responses job hnumber).trans hresponse.entry,
      fun hplace hstored ↦ hresponse.fresh hplace (hs.stored job hnumber hstored),
      fun current hread hnot ↦ hresponse.read current hread fun hmem ↦ hnot (hs.cancelled job hmem)⟩

theorem Link.of_load {chat : Chat} {stage : Stage} (hrole : l.role = .load job chat stage)
    (hseen : ∀ state, l.seen = some state → l.main = true ∧ s.modelLoadingState = state)
    (h : Loading s l job chat stage) : Link s l := by
  refine ⟨hseen, fun hnone ↦ ?_, fun job' chat' stage' hrole' ↦ ?_, fun _ _ _ hrole' ↦ ?_⟩
  · rw [hrole] at hnone
    cases hnone
  · rw [hrole] at hrole'
    cases hrole'
    exact h
  · rw [hrole] at hrole'
    cases hrole'

theorem Link.of_response {place : Place} (hrole : l.role = .response job chatId place)
    (hseen : ∀ state, l.seen = some state → l.main = true ∧ s.modelLoadingState = state)
    (h : Responding s job chatId place) : Link s l := by
  refine ⟨hseen, fun hnone ↦ ?_, fun _ _ _ hrole' ↦ ?_, fun job' chatId' place' hrole' ↦ ?_⟩
  · rw [hrole] at hnone
    cases hnone
  · rw [hrole] at hrole'
    cases hrole'
  · rw [hrole] at hrole'
    cases hrole'
    exact h

theorem Link.of_event (hrole : l.role = .event)
    (hseen : ∀ state, l.seen = some state → l.main = true ∧ s.modelLoadingState = state)
    (howned : ∀ job, l.owned = some job → ¬StoredBy s job) : Link s l := by
  refine ⟨hseen, fun _ ↦ howned, fun _ _ _ hrole' ↦ ?_, fun _ _ _ hrole' ↦ ?_⟩
  · rw [hrole] at hrole'
    cases hrole'
  · rw [hrole] at hrole'
    cases hrole'

theorem link_idle (s : Shared) : Link s {} := .of_event rfl nofun nofun

/-- A coroutine gets to a dispatcher or leaves it; it is active there only if its job is not
cancelled. -/
theorem Link.place (h : Link s l) (hs : Sound s) (hrole : l'.role = l.role) (howned : l'.owned = l.owned)
    (hseen : ∀ state, l'.seen = some state → l'.main = true ∧ l.seen = some state)
    (hactive : l'.active = true → ∀ job, l.role.job = some job → job ∉ s.cancelled) : Link s l' := by
  refine ⟨fun state hstate ↦ ?_, fun hnone job hjob ↦ ?_, fun job chat stage hload ↦ ?_,
    fun job chatId place hresponse ↦ ?_⟩
  · obtain ⟨hmain, hold⟩ := hseen state hstate
    exact ⟨hmain, (h.seen state hold).2⟩
  · exact h.owned (hrole ▸ hnone) job (howned ▸ hjob)
  · rw [hrole] at hload
    have hentry := (h.load job chat stage hload).entry
    have hinit (hactive' : l'.active = true) : s.manager.modelInitJob = some job :=
      hs.current job _ hentry (hactive hactive' job (congrArg Role.job hload))
    refine ⟨hentry, fun _ ↦ hinit, fun _ hactive' job' hstarted ↦ ?_, fun _ hactive' ↦ ?_⟩
    · exact Option.some.inj (hstarted.1.symm.trans (hinit hactive'))
    · exact (hs.init job _ (hinit hactive') hentry).quiet
  · rw [hrole] at hresponse
    exact h.response job chatId place hresponse

theorem idle_nil : ∀ x ∈ ([] : List Local), x = {} := by simp

namespace Inv

variable {x : Local} {j : ℕ}

theorem main_of_ne (h : Inv s ls) (hi : ls[i]? = some l) (hl : l.main = true) (hj : ls[j]? = some x) (hne : j ≠ i) :
    x.main = false := by
  by_contra hx
  exact hne ((h.main i l hi hl).2 j x hj (by simpa using hx))

theorem jni_of_free (h : Inv s ls) (hfree : s.jni = false) (hj : ls[j]? = some x) : x.jni = false := by
  by_contra hx
  have hlocked := (h.jni j x hj (by simpa using hx)).1
  rw [hfree] at hlocked
  cases hlocked

theorem number_ne (h : Inv s ls) (hi : ls[i]? = some l) (hl : number l = some job) (hj : ls[j]? = some x)
    (hne : j ≠ i) {k : ℕ} (hk : number x = some k) : k ≠ job := by
  intro heq
  subst heq
  exact hne ((h.jobs k i l hi hl).2 j x hj hk)

theorem number_lt (h : Inv s ls) (hi : ls[i]? = some l) (hl : number l = some job) : job < s.jobs :=
  of_decide_eq_true (h.jobs job i l hi hl).1

theorem advance (h : Inv s ls)
    (hmain : Sole (fun l ↦ l.main = true) s'.main (ls.set i l' ++ new))
    (hjni : Sole (fun l ↦ l.jni = true) s'.jni (ls.set i l' ++ new))
    (hjobs : ∀ job, Sole (fun l ↦ number l = some job) (decide (job < s'.jobs)) (ls.set i l' ++ new))
    (hothers : ∀ j x, j ≠ i → ls[j]? = some x → Leaves s s' x) (hown : Link s' l') (hnew : ∀ x ∈ new, Link s' x)
    (hsound : Sound s') : Inv s' (ls.set i l' ++ new) := by
  refine ⟨hmain, hjni, hjobs, fun j x hj ↦ ?_, hsound⟩
  rcases getElem?_step hj with ⟨-, rfl⟩ | ⟨hne, hj⟩ | ⟨-, hx⟩
  · exact hown
  · exact (h.link j x hj).mono (hothers j x hne hj)
  · exact hnew x hx

theorem move (h : Inv s ls) (hmain : Sole (fun l ↦ l.main = true) s'.main (ls.set i l'))
    (hjni : Sole (fun l ↦ l.jni = true) s'.jni (ls.set i l'))
    (hjobs : ∀ job, Sole (fun l ↦ number l = some job) (decide (job < s'.jobs)) (ls.set i l'))
    (hothers : ∀ j x, j ≠ i → ls[j]? = some x → Leaves s s' x) (hown : Link s' l') (hsound : Sound s') :
    Inv s' (ls.set i l' ++ []) := by
  have hnone {p : Local → Prop} : ∀ x ∈ ([] : List Local), p x := by simp
  exact h.advance (hmain.append hnone) (hjni.append hnone) (fun job ↦ (hjobs job).append hnone) hothers hown hnone
    hsound

/-- A step that neither takes nor releases a dispatcher. -/
theorem stay (h : Inv s ls) (hi : ls[i]? = some l) (hmain : l'.main = l.main ∧ s'.main = s.main)
    (hjni : l'.jni = l.jni ∧ s'.jni = s.jni) (hjobs : number l' = number l ∧ s'.jobs = s.jobs)
    (hnew : ∀ x ∈ new, x = {}) (hothers : ∀ j x, j ≠ i → ls[j]? = some x → Leaves s s' x) (hown : Link s' l')
    (hsound : Sound s') : Inv s' (ls.set i l' ++ new) := by
  refine h.advance ?_ ?_ (fun job ↦ ?_) hothers hown (fun x hx ↦ hnew x hx ▸ link_idle s') hsound
  · rw [hmain.2]
    exact (h.main.keep hi fun hl ↦ hmain.1 ▸ hl).append fun x hx ↦ by simp [hnew x hx]
  · rw [hjni.2]
    exact (h.jni.keep hi fun hl ↦ hjni.1 ▸ hl).append fun x hx ↦ by simp [hnew x hx]
  · rw [hjobs.2]
    exact ((h.jobs job).keep hi fun hl ↦ hjobs.1 ▸ hl).append fun x hx ↦ by simp [hnew x hx, number, Role.job]

/-- The rest of the state does not matter to the loads and the responses. -/
theorem frame (h : Inv s ls) (chat : Chat) (messages : List ChatMessage) (responseGenerationJob : Option ℕ)
    (isInstanceLoaded isInferenceOn : Bool) : Inv { s with chat, messages, manager :=
      { s.manager with responseGenerationJob, isInstanceLoaded, isInferenceOn } } ls where
  main := h.main
  jni := h.jni
  jobs := h.jobs
  link i l hi := (h.link i l hi).mono (.of_eq rfl rfl rfl rfl rfl rfl)
  sound := h.sound.frame _ _ _ _ _ _ _

theorem same (h : Inv s ls) (hi : ls[i]? = some l) (hnew : ∀ x ∈ new, x = {}) : Inv s (ls.set i l ++ new) :=
  h.stay hi ⟨rfl, rfl⟩ ⟨rfl, rfl⟩ ⟨rfl, rfl⟩ hnew (fun _ _ _ _ ↦ .of_eq rfl rfl rfl rfl rfl rfl) (h.link i l hi) h.sound

end Inv

end Aigentik.ChatInvariant
