import Aigentik.Chat.ChatInvariant

namespace Aigentik.ChatInvariant

open Strings Effects ChatScreen ChatCoroutines

variable {s : Shared} {ls : List Local} {i : ℕ} {l : Local} {job chatId : ℕ} {chat : Chat}

namespace Inv

/-! Dispatchers -/

theorem dispatch (h : Inv s ls) (hi : ls[i]? = some l) {main jni main' jni' active : Bool}
    {seen : Option ModelLoadingState}
    (hmain : Sole (fun l ↦ l.main = true) main (ls.set i { l with main := main', jni := jni', active, seen }))
    (hjni : Sole (fun l ↦ l.jni = true) jni (ls.set i { l with main := main', jni := jni', active, seen }))
    (hseen : ∀ state, seen = some state → main' = true ∧ l.seen = some state)
    (hactive : active = true → ∀ job, l.role.job = some job → job ∉ s.cancelled) :
    Inv { s with main, jni } (ls.set i { l with main := main', jni := jni', active, seen } ++ []) := by
  have hown : Link s { l with main := main', jni := jni', active, seen } :=
    (h.link i l hi).place h.sound rfl rfl hseen hactive
  have hleaves (x : Local) : Leaves s { s with main, jni } x := .of_eq rfl rfl rfl rfl rfl rfl
  refine h.move hmain hjni (fun job ↦ ?_) (fun _ x _ _ ↦ hleaves x) (hown.mono (hleaves _))
    (h.sound.frame main jni _ _ _ _ _)
  exact (h.jobs job).keep hi id

theorem onMain (h : Inv s ls) (hi : ls[i]? = some l) (hl : l.main = false) (hfree : s.main = false) (active : Bool)
    (hactive : active = true → ∀ job, l.role.job = some job → job ∉ s.cancelled) :
    Inv { s with main := true } (ls.set i { l with main := true, active } ++ []) := by
  have hmain := h.main
  rw [hfree] at hmain
  refine h.dispatch hi hmain.acquire (h.jni.keep hi id) (fun state hstate ↦ ?_) hactive
  have hold := ((h.link i l hi).seen state hstate).1
  rw [hl] at hold
  cases hold

theorem offMain (h : Inv s ls) (hi : ls[i]? = some l) (hl : l.main = true) :
    Inv { s with main := false } (ls.set i { l with main := false, active := false, seen := none } ++ []) :=
  h.dispatch hi (h.main.release hi hl nofun) (h.jni.keep hi id) nofun nofun

theorem onJni (h : Inv s ls) (hi : ls[i]? = some l) (hfree : s.jni = false) (active : Bool)
    (hactive : active = true → ∀ job, l.role.job = some job → job ∉ s.cancelled) :
    Inv { s with jni := true } (ls.set i { l with jni := true, active } ++ []) := by
  have hjni := h.jni
  rw [hfree] at hjni
  refine h.dispatch hi (h.main.keep hi id) hjni.acquire (fun state hstate ↦ ?_) hactive
  exact ⟨((h.link i l hi).seen state hstate).1, hstate⟩

theorem offJni (h : Inv s ls) (hi : ls[i]? = some l) (hl : l.jni = true) :
    Inv { s with jni := false } (ls.set i { l with jni := false, active := false } ++ []) := by
  refine h.dispatch hi (h.main.keep hi id) (h.jni.release hi hl nofun) (fun state hstate ↦ ?_) nofun
  exact ⟨((h.link i l hi).seen state hstate).1, hstate⟩

/-! Jobs -/

theorem newJob (h : Inv s ls) (hi : ls[i]? = some l) (hrole : l.role = .event) :
    Inv { s with jobs := s.jobs + 1 } (ls.set i { l with owned := some s.jobs } ++ []) := by
  have hlink := h.link i l hi
  refine h.move (h.main.keep hi id) (h.jni.keep hi id) (fun job ↦ ?_) (fun _ _ _ _ ↦ .of_eq rfl rfl rfl rfl rfl rfl)
    (.of_event hrole hlink.seen fun job hjob hstored ↦ ?_) h.sound.newJob
  · have hjob := h.jobs job
    by_cases hnew : job = s.jobs
    · subst hnew
      rw [decide_eq_false (lt_irrefl _)] at hjob
      rw [decide_eq_true (Nat.lt_succ_self _)]
      exact hjob.acquire
    · have hlt : job < s.jobs ↔ job < s.jobs + 1 := by omega
      rw [decide_eq_decide.mpr hlt] at hjob
      refine hjob.keep hi fun hnumber ↦ ?_
      have hnumber' : number { l with owned := some s.jobs } = some s.jobs :=
        number_of_owned (congrArg Role.job hrole)
      exact absurd (Option.some.inj (hnumber.symm.trans hnumber')) hnew
  · obtain rfl := Option.some.inj hjob
    exact lt_irrefl _ (h.sound.numbered _ hstored)

/-- The number of the new job goes to a new thread. -/
theorem launch {s' : Shared} {x : Local} (h : Inv s ls) (hi : ls[i]? = some l) (hrole : l.role = .event)
    (howned : l.owned = some job) (hx : number x = some job ∧ x.main = false ∧ x.jni = false)
    (hs : s'.main = s.main ∧ s'.jni = s.jni ∧ s'.jobs = s.jobs ∧ s'.modelLoadingState = s.modelLoadingState)
    (hothers : ∀ j x, j ≠ i → ls[j]? = some x → Leaves s s' x) (hnew : Link s' x) (hsound : Sound s') :
    Inv s' (ls.set i { l with owned := none } ++ [x]) := by
  obtain ⟨hnumber, hmain, hjni⟩ := hx
  obtain ⟨hsmain, hsjni, hsjobs, hstate⟩ := hs
  have hnone : l.role.job = none := congrArg Role.job hrole
  have hl : number l = some job := (number_of_owned hnone).trans howned
  have hl' : number { l with owned := none } = none := number_of_owned hnone
  have hown : Link s' { l with owned := none } := by
    refine .of_event hrole (fun state hseen ↦ ?_) nofun
    rw [hstate]
    exact (h.link i l hi).seen state hseen
  refine h.advance ?_ ?_ (fun k ↦ ?_) hothers hown (fun y hy ↦ List.mem_singleton.mp hy ▸ hnew) hsound
  · rw [hsmain]
    exact Sole.append (h.main.keep hi id) (by simp [hmain])
  · rw [hsjni]
    exact Sole.append (h.jni.keep hi id) (by simp [hjni])
  · rw [hsjobs]
    by_cases hk : k = job
    · subst hk
      rw [decide_eq_true (h.number_lt hi hl)]
      exact Sole.launch ((h.jobs k).release hi hl (by simp [hl']))
    · have hother : some job ≠ some k := fun heq ↦ hk (Option.some.inj heq).symm
      exact Sole.append ((h.jobs k).keep hi (by simp [hl'])) (by simpa [hnumber] using hother)

/-! Loads -/

theorem leaves_moveLoad (h : Inv s ls) (hi : ls[i]? = some l) (hl : number l = some job) {stage stage' : Stage}
    (hget : s.loads.get job = some ⟨chat, stage⟩) (hstage : stage ≠ .launched) (native : Option Instance) {j : ℕ}
    {x : Local} (hne : j ≠ i) (hj : ls[j]? = some x) :
    Leaves s { s with native, loads := s.loads.put job ⟨chat, stage'⟩ } x where
  loads _ hk := SharedMap.get_put_of_ne (h.number_ne hi hl hj hne hk)
  started _ k hstarted := by
    obtain ⟨hinit, load, hget', hlaunched⟩ := hstarted
    rcases SharedMap.get_put_some.mp hget' with ⟨rfl, -⟩ | ⟨hget', -⟩
    · exact ⟨hinit, _, hget, hstage⟩
    · exact ⟨hinit, load, hget', hlaunched⟩

theorem Loading.moveLoad {stage stage' : Stage} (h : Loading s l job chat stage)
    {native : Option Instance} {role : Role}
    (hquiet : l.jni = true → l.active = true → ∀ added todo, stage' = .filling added todo → Quiet s) :
    Loading { s with native, loads := s.loads.put job ⟨chat, stage'⟩ } { l with role } job chat stage' where
  entry := SharedMap.get_put_self
  main := h.main
  jni hjni hactive k hstarted := by
    obtain ⟨hinit, load, hget, hlaunched⟩ := hstarted
    rcases SharedMap.get_put_some.mp hget with ⟨rfl, -⟩ | ⟨hget, -⟩
    · rfl
    · exact h.jni hjni hactive k ⟨hinit, load, hget, hlaunched⟩
  quiet := hquiet

theorem startLoad (h : Inv s ls) (hi : ls[i]? = some l) (hl : l.main = false) (hfree : s.jni = false)
    (hrole : l.role = .load job chat .launched) (hnot : job ∉ s.cancelled) :
    Inv { s.moveLoad job fun _ ↦ .started with jni := true }
      (ls.set i { l with jni := true, active := true, role := l.role.moveLoad fun _ _ ↦ .started } ++ []) := by
  have hlink := h.link i l hi
  have hload := hlink.load job chat _ hrole
  have hnumber : number l = some job := number_of_role (congrArg Role.job hrole)
  have hinit : s.manager.modelInitJob = some job := h.sound.current job _ hload.entry hnot
  have hold := h.sound.init job _ hinit hload.entry
  rw [moveLoad_eq _ hload.entry, hrole]
  refine h.move (h.main.keep hi id) ?_ (fun k ↦ (h.jobs k).keep hi fun hk ↦ ?_) (fun j x hne hj ↦ ?_)
    (.of_load rfl hlink.seen ⟨SharedMap.get_put_self, fun hmain ↦ ?_, fun _ _ k hstarted ↦ ?_, nofun⟩) ?_
  · have hjni := h.jni
    rw [hfree] at hjni
    exact hjni.acquire
  · rw [hnumber]
    exact hk
  · have hx : x.jni = false := h.jni_of_free hfree hj
    refine { loads := fun k hk ↦ ?_, started := fun hjni ↦ ?_ }
    · exact SharedMap.get_put_of_ne (h.number_ne hi hnumber hj hne hk)
    · rw [hx] at hjni
      cases hjni
  · rw [hl] at hmain
    cases hmain
  · exact Option.some.inj (hstarted.1.symm.trans hinit)
  · refine (h.sound.moveLoad .started s.native hload.entry nofun (fun _ ↦ ?_) (fun k load hk _ hget ↦ ?_)
      h.sound.answering).frame _ true _ _ _ _ _
    · exact ⟨hold.shown, nofun, nofun, fun _ _ _ ↦ trivial⟩
    · exact (h.sound.init k load hk hget).fits

theorem load (h : Inv s ls) (hi : ls[i]? = some l) (hl : l.main = true) (hrole : l.role = .event)
    (howned : l.owned = some job) (hseen : l.seen = some .inProgress)
    (hread : ∀ e ∈ s.responses.entries, e.2.phase ≠ .over → e.1 ∉ s.cancelled → e.2.chatId = chat.id) :
    Inv { s.cancel s.manager.modelInitJob with
        manager.chat := some chat, manager.modelInitJob := some job, loads := s.loads.put job ⟨chat, .launched⟩ }
      (ls.set i { l with owned := none } ++ [{ role := .load job chat .launched }]) := by
  have hnumber : number l = some job := (number_of_owned (congrArg Role.job hrole)).trans howned
  have hstate : s.modelLoadingState = .inProgress := ((h.link i l hi).seen _ hseen).2
  have hsub : ∀ k ∈ s.cancelled, k ∈ (s.cancel s.manager.modelInitJob).cancelled :=
    fun k hk ↦ List.mem_append_right _ hk
  refine h.launch hi hrole howned ⟨rfl, rfl, rfl⟩ ⟨rfl, rfl, rfl, rfl⟩ (fun j x hne hj ↦ ?_)
    (.of_load rfl nofun ⟨SharedMap.get_put_self, nofun, nofun, nofun⟩) (h.sound.load (by simp [hstate]) hread)
  have hx : x.main = false := h.main_of_ne hi hl hj hne
  refine { init := fun hmain ↦ ?_, cancelled := hsub, loads := fun k hk ↦ ?_, started := fun _ k hstarted ↦ ?_,
           quiet := fun _ _ _ hquiet ↦ hquiet.mono rfl hsub }
  · rw [hx] at hmain
    cases hmain
  · exact SharedMap.get_put_of_ne (h.number_ne hi hnumber hj hne hk)
  · obtain ⟨hinit, load, hget, hlaunched⟩ := hstarted
    obtain rfl : job = k := Option.some.inj hinit
    rw [SharedMap.get_put_self] at hget
    obtain rfl := Option.some.inj hget
    exact absurd rfl hlaunched

theorem moveLoad (h : Inv s ls) (hi : ls[i]? = some l) {stage : Stage} (stage' : Stage) (native : Option Instance)
    (hrole : l.role = .load job chat stage) (hstage : stage ≠ .launched) (hloaded : stage = .loaded → stage' = .loaded)
    (hquiet : l.jni = true → l.active = true → ∀ added todo, stage' = .filling added todo → Quiet s)
    (hself : s.manager.modelInitJob = some job → Initializes { s with native } job ⟨chat, stage'⟩)
    (hother : ∀ k load, s.manager.modelInitJob = some k → k ≠ job → s.loads.get k = some load →
      ∀ inst ∈ native, inst.job = k → Fits load inst)
    (hanswering : ∀ k response, s.responses.get k = some response → Awaits s k response →
      ∀ inst ∈ native, IsOf response.chatId inst) {role : Role} (hrole' : role = .load job chat stage') :
    Inv { s with native, loads := s.loads.put job ⟨chat, stage'⟩ } (ls.set i { l with role } ++ []) := by
  have hlink := h.link i l hi
  have hload := hlink.load job chat stage hrole
  have hnumber : number l = some job := number_of_role (congrArg Role.job hrole)
  have hsame : number { l with role } = number l := by
    rw [hnumber]
    exact number_of_role (congrArg Role.job hrole')
  exact h.stay hi ⟨rfl, rfl⟩ ⟨rfl, rfl⟩ ⟨hsame, rfl⟩ idle_nil
    (fun j x hne hj ↦ h.leaves_moveLoad hi hnumber hload.entry hstage native hne hj)
    (.of_load hrole' hlink.seen (Loading.moveLoad hload hquiet))
    (h.sound.moveLoad stage' native hload.entry hloaded hself hother hanswering)

/-- The instance is new, and no response uses the one before. -/
theorem setNativePtr (h : Inv s ls) (hi : ls[i]? = some l) (hrole : l.role = .load job chat .started)
    (hquiet : Quiet s) (storeChats : Bool) :
    Inv { s.moveLoad job fun load ↦ .filling [] load.chat.opening with native := some ⟨job, storeChats, [], [], none⟩ }
      (ls.set i { l with role := l.role.moveLoad fun chat _ ↦ .filling [] chat.opening } ++ []) := by
  have hload := (h.link i l hi).load job chat _ hrole
  have htagged : ∀ m ∈ chat.opening, m.chatId = chat.id := by
    intro m hm
    unfold Chat.opening at hm
    split at hm
    · rw [List.mem_singleton.mp hm]
      rfl
    · cases hm
  have hrole' : l.role.moveLoad (fun chat _ ↦ .filling [] chat.opening) =
      .load job chat (.filling [] chat.opening) := by
    rw [hrole]
    rfl
  rw [moveLoad_eq _ hload.entry]
  refine h.moveLoad hi _ _ hrole nofun nofun (fun _ _ _ _ _ ↦ hquiet) (fun hinit ↦ ?_)
      (fun k load _ hne _ inst hinst hk ↦ ?_)
    (fun k response hget hawaits ↦ ?_) hrole'
  · have hold := h.sound.init job _ hinit hload.entry
    refine ⟨hold.shown, fun _ _ _ ↦ hquiet, htagged, fun inst hinst _ ↦ ?_⟩
    obtain rfl := Option.some.inj hinst
    rfl
  · obtain rfl := Option.some.inj hinst
    exact absurd hk.symm hne
  · exact absurd hawaits (quiet_iff.mp hquiet k response hget)

/-- The instance is that of the load, if it is that of the load that counts. -/
theorem addChatMessage (h : Inv s ls) (hi : ls[i]? = some l) (hjni : l.jni = true) (hactive : l.active = true)
    {message : Spoken} {added todo : List Spoken} (hrole : l.role = .load job chat (.filling added (message :: todo)))
    {inst : Instance} (hnative : s.native = some inst) :
    Inv { s.moveLoad job fun load ↦ load.stage.add with
        native := some (inst.say message.chatId message.role message.content) }
      (ls.set i { l with role := l.role.moveLoad fun _ ↦ Stage.add } ++ []) := by
  have hload := (h.link i l hi).load job chat _ hrole
  have hquiet : Quiet s := hload.quiet hjni hactive _ _ rfl
  have hrole' : l.role.moveLoad (fun _ ↦ Stage.add) = .load job chat (.filling (added ++ [message]) todo) := by
    rw [hrole]
    rfl
  rw [moveLoad_eq _ hload.entry]
  refine h.moveLoad hi _ _ hrole nofun nofun (fun _ _ _ _ _ ↦ hquiet) (fun hinit ↦ ?_)
      (fun k load hk hne hget i hinst hik ↦ ?_)
    (fun k response hget hawaits ↦ ?_) hrole'
  · have hold := h.sound.init job _ hinit hload.entry
    refine ⟨hold.shown, fun _ _ _ ↦ hquiet, fun m hm ↦ hold.tagged m ?_, fun i hinst hij ↦ ?_⟩
    · have hcontents : added ++ message :: todo = (added ++ [message]) ++ todo := by simp
      exact (congrArg (m ∈ ·) hcontents).mpr hm
    · obtain rfl := Option.some.inj hinst
      have hfits : inst.messages = added := hold.fits inst hnative hij
      exact congrArg (· ++ [message]) hfits
  · unfold Fits
    by_cases hlaunched : load.stage = .launched
    · rw [hlaunched]
      trivial
    · exact absurd (hload.jni hjni hactive k ⟨hk, load, hget, hlaunched⟩) hne
  · exact absurd hawaits (quiet_iff.mp hquiet k response hget)

theorem getMessagesForModel (h : Inv s ls) (hi : ls[i]? = some l) {added : List Spoken}
    (hrole : l.role = .load job chat (.filling added [])) {messages : List ChatMessage}
    (hmessages : ∀ m ∈ messages, m.chatId = chat.id) :
    Inv (s.moveLoad job fun load ↦ load.stage.read messages)
      (ls.set i { l with role := l.role.moveLoad fun _ ↦ Stage.read messages } ++ []) := by
  have hload := (h.link i l hi).load job chat _ hrole
  have hrole' : l.role.moveLoad (fun _ ↦ Stage.read messages) =
      .load job chat (.filling added ([] ++ messages.map ChatMessage.spoken)) := by
    rw [hrole]
    rfl
  rw [moveLoad_eq _ hload.entry]
  refine h.moveLoad hi _ s.native hrole nofun nofun
    (fun hjni hactive _ _ _ ↦ hload.quiet hjni hactive _ _ rfl) (fun hinit ↦ ?_)
    (fun k load hk _ hget ↦ (h.sound.init k load hk hget).fits) h.sound.answering hrole'
  · have hold := h.sound.init job _ hinit hload.entry
    refine ⟨hold.shown, fun _ _ _ ↦ hold.quiet _ _ rfl, fun m hm ↦ ?_, hold.fits⟩
    rcases List.mem_append.mp hm with hm | hm
    · exact hold.tagged m (List.mem_append_left _ hm)
    · obtain ⟨message, hmessage, rfl⟩ := List.mem_map.mp hm
      exact hmessages message hmessage

/-- The load has put into the instance what it had to put there. -/
theorem setInstanceLoaded (h : Inv s ls) (hi : ls[i]? = some l) (hl : l.main = true) (hactive : l.active = true)
    {added : List Spoken} (hrole : l.role = .load job chat (.filling added [])) :
    Inv { s.moveLoad job fun _ ↦ .loaded with
        manager.isInstanceLoaded := true
        native := s.native.map fun inst ↦
          { inst with opening := some (chat.id, Load.contents ⟨chat, .filling added []⟩) } }
      (ls.set i { l with role := l.role.moveLoad fun _ _ ↦ .loaded } ++ []) := by
  have hload := (h.link i l hi).load job chat _ hrole
  have hinit : s.manager.modelInitJob = some job := hload.main hl hactive
  have hold := h.sound.init job _ hinit hload.entry
  have hrole' : l.role.moveLoad (fun _ _ ↦ .loaded) = .load job chat .loaded := by
    rw [hrole]
    rfl
  rw [moveLoad_eq _ hload.entry]
  refine (h.moveLoad hi .loaded (s.native.map fun inst ↦ { inst with opening := some (chat.id, added ++ []) }) hrole
    nofun nofun (fun _ _ ↦ nofun) (fun _ ↦ ⟨hold.shown, nofun, nofun, fun inst hinst hij ↦ ?_⟩)
    (fun k load hk hne ↦ ?_) (fun k response hget hawaits ↦ ?_) hrole').frame _ _ _ true _
  · obtain ⟨old, hnative, rfl⟩ := Option.map_eq_some_iff.mp hinst
    have hfits : old.messages = added := hold.fits old hnative hij
    refine ⟨⟨added ++ [], [], rfl, ?_⟩, fun m hm ↦ hold.tagged m (List.mem_append_left _ (hfits ▸ hm))⟩
    simpa only [List.append_nil] using hfits
  · exact absurd (Option.some.inj (hk.symm.trans hinit)) hne
  · exact absurd hawaits (quiet_iff.mp (hold.quiet _ _ rfl) k response hget)

/-! The screen and the manager -/

theorem setLoadingState (h : Inv s ls) (hi : ls[i]? = some l) (hl : l.main = true) {state : ModelLoadingState}
    (hsuccess : state = .success → l.active = true ∧ ∃ job chat, l.role = .load job chat .loaded) :
    Inv { s with modelLoadingState := state } (ls.set i { l with seen := some state } ++ []) := by
  have hlink := h.link i l hi
  refine h.stay hi ⟨rfl, rfl⟩ ⟨rfl, rfl⟩ ⟨rfl, rfl⟩ idle_nil (fun j x hne hj ↦ ?_) ⟨fun st hst ↦ ?_, hlink.owned,
    fun job chat stage hrole ↦ ?_, fun job chatId place hrole ↦ ?_⟩ (h.sound.setLoadingState state fun hstate ↦ ?_)
  · have hx : x.main = false := h.main_of_ne hi hl hj hne
    refine { state := fun hmain ↦ ?_ }
    rw [hx] at hmain
    cases hmain
  · exact ⟨hl, Option.some.inj hst⟩
  · have hload := hlink.load job chat stage hrole
    exact ⟨hload.entry, hload.main, hload.jni, hload.quiet⟩
  · have hresponse := hlink.response job chatId place hrole
    exact ⟨hresponse.entry, hresponse.fresh, hresponse.read⟩
  · obtain ⟨hactive, job, chat, hrole⟩ := hsuccess hstate
    have hload := hlink.load job chat _ hrole
    exact ⟨job, chat, hload.main hl hactive, hload.entry⟩

theorem canSend (h : Inv s ls) (hi : ls[i]? = some l) (hl : l.main = true) (hstate : s.modelLoadingState = .success) :
    Inv s (ls.set i { l with seen := some .success } ++ []) := by
  have hlink := h.link i l hi
  refine h.stay hi ⟨rfl, rfl⟩ ⟨rfl, rfl⟩ ⟨rfl, rfl⟩ idle_nil (fun _ _ _ _ ↦ .of_eq rfl rfl rfl rfl rfl rfl)
    ⟨fun st hst ↦ ⟨hl, ?_⟩, hlink.owned, fun job chat stage hrole ↦ ?_, hlink.response⟩ h.sound
  · exact hstate.trans (Option.some.inj hst)
  · have hload := hlink.load job chat stage hrole
    exact ⟨hload.entry, hload.main, hload.jni, hload.quiet⟩

theorem cancel (h : Inv s ls) (job : Option ℕ) : Inv (s.cancel job) ls where
  main := h.main
  jni := h.jni
  jobs := h.jobs
  link i l hi := (h.link i l hi).mono
    { cancelled := fun _ hk ↦ List.mem_append_right _ hk
      quiet := fun _ _ _ hquiet ↦ hquiet.mono rfl fun _ hk ↦ List.mem_append_right _ hk }
  sound := h.sound.cancel job

theorem unload (h : Inv s ls) : Inv { s with native := none, manager := { s.manager with chat := none } } ls where
  main := h.main
  jni := h.jni
  jobs := h.jobs
  link i l hi := (h.link i l hi).mono (.of_eq rfl rfl rfl rfl rfl rfl)
  sound := h.sound.unload

/-! Responses -/

theorem launchResponse (h : Inv s ls) (hi : ls[i]? = some l) (hrole : l.role = .event)
    (howned : l.owned = some job) (hseen : l.seen = some .success)
    (hchat : s.manager.chat.map Chat.id = some chat.id)
    (hnative : s.native.map Instance.job = s.manager.modelInitJob) :
    Inv { s with responses := s.responses.put job ⟨chat.id, .queued⟩ }
      (ls.set i { l with owned := none } ++ [{ role := .response job chat.id .queued }]) := by
  have hlink := h.link i l hi
  have hnone : l.role.job = none := congrArg Role.job hrole
  have hnumber : number l = some job := (number_of_owned hnone).trans howned
  have hstate : s.modelLoadingState = .success := (hlink.seen _ hseen).2
  obtain ⟨k, c, hinit, hget⟩ := h.sound.success hstate
  refine h.launch hi hrole howned ⟨rfl, rfl, rfl⟩ ⟨rfl, rfl, rfl, rfl⟩ (fun j x hne hj ↦ ?_)
    (.of_response rfl nofun ⟨SharedMap.get_put_self, fun _ ↦ hlink.owned hnone job howned, nofun⟩)
    (h.sound.launchResponse hstate hchat hnative)
  refine { responses := fun k hk ↦ ?_, quiet := fun hjni hactive ⟨job', chat', added, todo, hrole'⟩ ↦ ?_ }
  · exact SharedMap.get_put_of_ne (h.number_ne hi hnumber hj hne hk)
  · have hload := (h.link j x hj).load job' chat' _ hrole'
    obtain rfl : k = job' := hload.jni hjni hactive k ⟨hinit, _, hget, nofun⟩
    have hentry := hget.symm.trans hload.entry
    cases hentry

theorem moveResponse (h : Inv s ls) (hi : ls[i]? = some l) {place : Place} (place' : Place)
    (hrole : l.role = .response job chatId place)
    (hawaits : Awaits s job ⟨chatId, place'.phase⟩ → Awaits s job ⟨chatId, place.phase⟩)
    (hover : place.phase = .over → place'.phase = .over) (hfresh : place' ≠ .over → ¬StoredBy s job)
    (hread : ∀ current, place' = .read (some current) → job ∉ s.cancelled → current = chatId) {role : Role}
    (hrole' : role = .response job chatId place') :
    Inv { s with responses := s.responses.put job ⟨chatId, place'.phase⟩ } (ls.set i { l with role } ++ []) := by
  have hlink := h.link i l hi
  have hresponse := hlink.response job chatId place hrole
  have hnumber : number l = some job := number_of_role (congrArg Role.job hrole)
  have hsame : number { l with role } = number l := by
    rw [hnumber]
    exact number_of_role (congrArg Role.job hrole')
  refine h.stay hi ⟨rfl, rfl⟩ ⟨rfl, rfl⟩ ⟨hsame, rfl⟩ idle_nil (fun j x hne hj ↦ ?_)
    (.of_response hrole' hlink.seen ⟨SharedMap.get_put_self, hfresh, hread⟩)
    (h.sound.moveResponse hresponse.entry hawaits hover)
  exact { responses := fun _ hk ↦ SharedMap.get_put_of_ne (h.number_ne hi hnumber hj hne hk)
          quiet := fun _ _ _ hquiet ↦ hquiet.moveResponse hresponse.entry hawaits }

theorem startResponse (h : Inv s ls) (hi : ls[i]? = some l) (hfree : s.jni = false)
    (hrole : l.role = .response job chatId .queued) (hnot : job ∉ s.cancelled) :
    Inv { s.moveResponse job .generating with jni := true }
      (ls.set i { l with jni := true, active := true, role := l.role.moveResponse .generating } ++ []) := by
  have hresponse := (h.link i l hi).response job chatId _ hrole
  have hrole' : l.role.moveResponse .generating = .response job chatId .generating := by
    rw [hrole]
    rfl
  have hactive : ∀ k, l.role.job = some k → k ∉ s.cancelled := by
    intro k hk
    rw [hrole] at hk
    exact Option.some.inj hk ▸ hnot
  have hon := h.onJni hi hfree true fun _ ↦ hactive
  rw [List.append_nil] at hon
  have hmoved := hon.moveResponse (getElem?_set_of_some hi) .generating hrole (fun _ ↦ .inr ⟨rfl, hnot⟩) nofun
    (fun _ ↦ hresponse.fresh nofun) nofun hrole'
  rw [List.set_set] at hmoved
  rw [moveResponse_eq _ hresponse.entry]
  exact hmoved

theorem endInference (h : Inv s ls) (hi : ls[i]? = some l) (hjob : l.role.job = some job) :
    Inv (s.moveResponse job .over) (ls.set i { l with role := l.role.moveResponse .over } ++ []) := by
  have hlink := h.link i l hi
  have hnumber : number l = some job := number_of_role hjob
  have hover (chatId : ℕ) (phase : Phase) : Awaits s job ⟨chatId, .over⟩ → Awaits s job ⟨chatId, phase⟩ := by
    simp [Awaits]
  cases hrole : l.role with
  | event =>
    rw [hrole] at hjob
    cases hjob
  | response k chatId place =>
    obtain rfl : k = job := by simpa [hrole, Role.job] using hjob
    rw [moveResponse_eq _ (hlink.response k chatId place hrole).entry]
    refine h.moveResponse hi .over hrole (hover _ _) (fun _ ↦ rfl) (fun hplace ↦ absurd rfl hplace)
      (fun current hplace ↦ ?_) rfl
    cases hplace
  | load k chat stage =>
    have hsame : { l with role := (Role.load k chat stage).moveResponse .over } = l :=
      congrArg (fun role ↦ { l with role }) hrole.symm
    rw [hsame]
    cases hget : s.responses.get job with
    | none =>
      have hs : s.moveResponse job .over = s := by simp only [Shared.moveResponse, hget]
      rw [hs]
      exact h.same hi idle_nil
    | some response =>
      have hload := hlink.load k chat stage hrole
      have hquiet := fun hquiet : Quiet s ↦ hquiet.moveResponse hget (hover response.chatId response.phase)
      rw [moveResponse_eq _ hget]
      refine h.stay hi ⟨rfl, rfl⟩ ⟨rfl, rfl⟩ ⟨rfl, rfl⟩ idle_nil (fun j x hne hj ↦ ?_)
        (.of_load hrole hlink.seen ⟨hload.entry, hload.main, hload.jni, fun hjni hactive added todo hstage ↦ ?_⟩)
        (h.sound.moveResponse hget (hover _ _) fun _ ↦ rfl)
      · exact { responses := fun _ hk ↦ SharedMap.get_put_of_ne (h.number_ne hi hnumber hj hne hk)
                quiet := fun _ _ _ ↦ hquiet }
      · exact hquiet (hload.quiet hjni hactive added todo hstage)

theorem readChat (h : Inv s ls) (hi : ls[i]? = some l) (hrole : l.role = .response job chatId .answered) :
    Inv (s.moveResponse job .over)
      (ls.set i { l with role := l.role.moveResponse (.read (s.manager.chat.map Chat.id)) } ++ []) := by
  have hresponse := (h.link i l hi).response job chatId _ hrole
  have hrole' : l.role.moveResponse (.read (s.manager.chat.map Chat.id)) =
      .response job chatId (.read (s.manager.chat.map Chat.id)) := by
    rw [hrole]
    rfl
  rw [moveResponse_eq _ hresponse.entry]
  refine h.moveResponse hi (.read (s.manager.chat.map Chat.id)) hrole nofun nofun (fun _ ↦ hresponse.fresh nofun)
    (fun current hplace hnot ↦ ?_) hrole'
  obtain ⟨chat, hchat, rfl⟩ := Option.map_eq_some_iff.mp (Place.read.inj hplace)
  exact h.sound.reading job _ hresponse.entry nofun hnot chat hchat

theorem respond (h : Inv s ls) (hi : ls[i]? = some l) (hrole : l.role = .response job chatId .generating)
    {inst : Instance} (inst' : Instance) (hnative : s.native = some inst) (hjob : inst'.job = inst.job)
    (hinst : IsOf chatId inst → IsOf chatId inst') {generated : List (ℕ × Instance)}
    (hgenerated : ∀ p ∈ generated, p = (chatId, inst) ∨ p ∈ s.generated) :
    Inv { s with native := some inst', generated } (ls.set i l ++ []) := by
  have hentry := ((h.link i l hi).response job chatId _ hrole).entry
  have hleaves (x : Local) : Leaves s { s with native := some inst', generated } x := .of_eq rfl rfl rfl rfl rfl rfl
  exact h.stay hi ⟨rfl, rfl⟩ ⟨rfl, rfl⟩ ⟨rfl, rfl⟩ idle_nil (fun _ x _ _ ↦ hleaves x) ((h.link i l hi).mono (hleaves l))
    (h.sound.respond hentry hnative hjob hinst hgenerated)

theorem stopCompletion (h : Inv s ls) (hi : ls[i]? = some l) (hrole : l.role = .response job chatId .generating)
    {inst inst' : Instance} (hnative : s.native = some inst) (hjob : inst'.job = inst.job)
    (hinst : IsOf chatId inst → IsOf chatId inst') :
    Inv { s.moveResponse job .answered with native := some inst' }
      (ls.set i { l with role := l.role.moveResponse .answered } ++ []) := by
  have hresponse := (h.link i l hi).response job chatId _ hrole
  have hrole' : l.role.moveResponse .answered = .response job chatId .answered := by
    rw [hrole]
    rfl
  have hsaid := h.respond hi hrole inst' hnative hjob hinst (fun p hp ↦ .inr hp)
  rw [List.append_nil, set_of_getElem? hi] at hsaid
  rw [moveResponse_eq _ hresponse.entry]
  exact hsaid.moveResponse hi .answered hrole (fun hawaits ↦ by simp [Awaits, Place.phase] at hawaits) nofun
    (fun _ ↦ hresponse.fresh nofun) nofun hrole'

theorem addAssistantMessage (h : Inv s ls) (hi : ls[i]? = some l) {sent : ℕ}
    (hrole : l.role = .response job sent (.read (some chatId))) (hsent : sent = chatId) :
    Inv { s with stored := s.stored ++ [⟨job, sent, chatId⟩] }
      (ls.set i { l with role := l.role.moveResponse .over } ++ []) := by
  have hlink := h.link i l hi
  have hresponse := hlink.response job sent _ hrole
  have hnumber : number l = some job := number_of_role (congrArg Role.job hrole)
  rw [hrole]
  refine h.stay hi ⟨rfl, rfl⟩ ⟨rfl, rfl⟩ ⟨hnumber.symm, rfl⟩ idle_nil
      (fun j x hne hj ↦ { stored := fun k hk hstored ↦ ?_ })
    (.of_response rfl hlink.seen ⟨hresponse.entry, fun hplace ↦ absurd rfl hplace, nofun⟩)
    (h.sound.store (h.number_lt hi hnumber) (hresponse.fresh nofun) hsent)
  simp only [StoredBy, List.map_append, List.mem_append, List.map_cons, List.map_nil, List.mem_singleton] at hstored
  exact hstored.resolve_right (h.number_ne hi hnumber hj hne hk)

end Inv

end Aigentik.ChatInvariant
