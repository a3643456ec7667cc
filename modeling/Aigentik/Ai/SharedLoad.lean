import Aigentik.Ai.OnDemandLoading

namespace Aigentik.SharedLoad

open Effects AgentLLMFacade OnDemandLoading

/-- Where a thread is with respect to `loadMutex`; inside, whether it has found no deferred,
created one, or published it. -/
inductive MutexAt
  | outside | inside | vacant
  | created (d : ℕ)
  | published (d : ℕ)
  deriving DecidableEq

/-- How far a load coroutine has come. -/
inductive Stage
  | launched | loading | inLoad | returned | failed | dead
  | settled (result : Bool)
  | cleared (result : Bool)
  deriving DecidableEq

/-- The stages at which the state of the facade is that of a load in progress. -/
def Stage.working : Stage → Bool
  | .loading | .inLoad | .returned | .failed | .dead => true
  | _ => false

/-- The stages after the deferred has been taken back. -/
def Stage.over : Stage → Bool
  | .cleared _ => true
  | _ => false

/-- The stages before `smolLM.load` has ended. -/
def Stage.early : Stage → Bool
  | .launched | .loading | .inLoad => true
  | _ => false

/-- What is known of the result of the load. -/
def Stage.result : Stage → Option Bool
  | .returned => some true
  | .failed => some false
  | .settled r | .cleared r => some r
  | _ => none

def Stage.setState : Stage → State → Stage
  | .launched, .loading => .loading
  | .returned, .ready => .settled true
  | .failed, .error => .settled false
  | stage, _ => stage

def Stage.loadEnd : LoadEnd → Stage
  | .returned => .returned
  | .exception _ => .failed
  | .error _ => .dead

structure Local where
  mutex : MutexAt := .outside
  load : Option (ℕ × Stage) := none
  joined : Option ℕ := none
  asked : Bool := false
  told : Bool := false
  lock : Bool := false
  native : Bool := false
  closing : Bool := false

def disc : Discipline facadeSig Local where
  allow
    | l, .request => l.joined = none
    | l, .lock => l.lock = false
    | l, .unlock => l.lock = true ∧ l.native = false ∧ l.closing = false
    | l, .enter _ => l.lock = true ∧ (l.told = true ∨ ∃ d, l.load = some (d, .returned))
    | l, .close => l.lock = true
    | l, .setState .notLoaded => l.lock = true ∧ l.closing = true
    | l, .setState .loading => ∃ d, l.load = some (d, .launched)
    | l, .setState .warming => ∃ d, l.load = some (d, .returned)
    | l, .setState .ready => l.native = false ∧ ∃ d, l.load = some (d, .returned)
    | l, .setState .error => ∃ d, l.load = some (d, .failed)
    | l, .loadBegin d _ => l.load = some (d, .loading)
    | l, .loadEnd d => l.load = some (d, .inLoad)
    | l, .lockMutex => l.mutex = .outside
    | l, .unlockMutex => l.mutex = .inside ∨ l.mutex = .vacant
    | l, .getDeferred => l.mutex = .inside
    | l, .newDeferred => l.mutex = .vacant
    | l, .setDeferred (some d) => l.mutex = .created d
    | l, .setDeferred none => l.mutex = .inside ∧ ∃ d r, l.load = some (d, .settled r)
    | l, .launchLoad d => l.mutex = .published d
    | l, .complete d r => l.load = some (d, .cleared r)
    | l, .await d => l.joined = some d
    | _, _ => True
  may
    | l, .stateIs state, r =>
      (∃ d, l.load = some (d, .launched)) → state = .loading ∨ state = .warming → r = false
    | _, _, _ => True
  next
    | l, .request, _ => { l with asked := true }
    | l, .stateIs state, r => { l with told := l.told || (l.asked && (r && state = .ready)) }
    | l, .setState state, _ =>
      { l with
        load := l.load.map fun p ↦ (p.1, p.2.setState state)
        closing := l.closing && state ≠ .notLoaded }
    | l, .lock, _ => { l with lock := true }
    | l, .unlock, _ => { l with lock := false, asked := false, told := false }
    | l, .enter _, _ => { l with native := true }
    | l, .leave _, _ => { l with native := false }
    | l, .close, _ => { l with closing := true }
    | l, .loadBegin d _, _ => { l with load := some (d, .inLoad) }
    | l, .loadEnd d, r => { l with load := some (d, .loadEnd r) }
    | l, .lockMutex, _ => { l with mutex := .inside }
    | l, .unlockMutex, _ => { l with mutex := .outside }
    | l, .getDeferred, some d => { l with joined := some d }
    | l, .getDeferred, none => { l with mutex := .vacant }
    | l, .newDeferred, d => { l with mutex := .created d }
    | l, .setDeferred (some d), _ => { l with mutex := .published d, joined := some d }
    | l, .setDeferred none, _ =>
      { l with load := l.load.map fun p ↦ (p.1, .cleared (p.2.result.getD false)) }
    | l, .launchLoad _, _ => { l with mutex := .inside }
    | l, .complete _ _, _ => { l with load := none }
    | l, .await _, r => { l with told := l.told || (l.asked && r) }
    | l, _, _ => l

/-! What each part of the facade does at its place -/

variable {Q : Except Throwable Unit → Local → Prop} {l : Local}

theorem cancelIdleUnload_wp (h : Q (.ok ()) l) : cancelIdleUnload.wp disc Q l := by
  refine ⟨trivial, fun job _ ↦ ?_⟩
  cases job with
  | none => exact h
  | some job => exact ⟨trivial, fun _ _ ↦ h⟩

theorem scheduleIdleUnload_wp (h : Q (.ok ()) l) : scheduleIdleUnload.wp disc Q l := by
  refine (Prog.wp_bind _ _).mpr (cancelIdleUnload_wp ?_)
  exact ⟨trivial, fun job _ ↦ ⟨trivial, fun _ _ ↦ ⟨trivial, fun _ _ ↦ h⟩⟩⟩

theorem unloadModel_wp : unloadModel.wp disc (fun _ _ ↦ True) {} := by
  refine ⟨trivial, fun notLoaded _ ↦ ?_⟩
  cases notLoaded with
  | true => trivial
  | false =>
    refine ⟨rfl, fun _ _ ↦ ⟨rfl, fun _ _ ↦ ⟨⟨rfl, rfl⟩, fun _ _ ↦ ?_⟩⟩⟩
    exact ⟨⟨rfl, rfl, rfl⟩, fun _ _ ↦ ⟨trivial, fun _ _ ↦ trivial⟩⟩

theorem idleUnload_wp (job : ℕ) : (idleUnload job).wp disc (fun _ _ ↦ True) {} := by
  refine ⟨trivial, fun elapsed _ ↦ ?_⟩
  cases elapsed with
  | true => exact unloadModel_wp
  | false => trivial

/-- A caller that is answered `true` has been told that the model is ready. -/
theorem ensureLoaded_wp (asked : Bool) : ensureLoaded.wp disc
    (Prog.exits (fun ready l ↦ l.lock = false ∧ l.native = false ∧ l.closing = false ∧ l.mutex = .outside ∧
      (ready = true → asked = true → l.told = true)) fun _ _ ↦ False) { asked } := by
  refine (Prog.wp_bind _ _).mpr (cancelIdleUnload_wp ⟨trivial, fun _ _ ↦ ⟨by simp [disc], fun ready _ ↦ ?_⟩⟩)
  cases ready with
  | true => exact ⟨rfl, rfl, rfl, rfl, fun _ h ↦ by simp [disc, h]⟩
  | false =>
    refine ⟨rfl, fun _ _ ↦ ⟨trivial, fun ready _ ↦ ?_⟩⟩
    cases ready with
    | true => exact ⟨.inl rfl, fun _ _ ↦ ⟨rfl, rfl, rfl, rfl, fun _ h ↦ by simp [disc, h]⟩⟩
    | false =>
      refine ⟨rfl, fun deferred _ ↦ ?_⟩
      cases deferred with
      | some d =>
        refine ⟨.inl rfl, fun _ _ ↦ ⟨rfl, fun ready _ ↦ ⟨rfl, rfl, rfl, rfl, fun h h' ↦ ?_⟩⟩⟩
        simp [disc, h, h']
      | none =>
        refine ⟨trivial, fun path _ ↦ ?_⟩
        change Prog.wp disc _ (if Strings.isBlank path = true then _ else _) _
        split
        · exact ⟨.inr rfl, fun _ _ ↦ ⟨rfl, rfl, rfl, rfl, nofun⟩⟩
        · refine ⟨rfl, fun d _ ↦ ⟨rfl, fun _ _ ↦ ⟨rfl, fun _ _ ↦ ⟨.inl rfl, fun _ _ ↦ ⟨rfl, fun ready _ ↦ ?_⟩⟩⟩⟩⟩
          refine ⟨rfl, rfl, rfl, rfl, fun h h' ↦ ?_⟩
          simp [disc, h, h']

theorem native_wp {Q : Except Throwable Strings.Str → Local → Prop} {l : Local} (call : NativeCall)
    (hlock : l.lock = true) (hnative : l.native = false)
    (hready : l.told = true ∨ ∃ d, l.load = some (d, .returned)) (h : ∀ o, Q o l) :
    (OnDemandLoading.native call).wp disc Q l := by
  refine ⟨⟨hlock, hready⟩, fun _ _ ↦ ⟨trivial, fun r _ ↦ ?_⟩⟩
  have hback : { l with native := false } = l := by rw [← hnative]
  change Prog.wp disc Q (Prog.ofExcept r) { l with native := false }
  rw [hback]
  cases r <;> exact h _

theorem generating_wp {Q : Except Throwable Strings.Str → Local → Prop} (prompt : Prompt)
    (hlock : l.lock = false) (hnative : l.native = false) (hclosing : l.closing = false)
    (hready : l.told = true ∨ ∃ d, l.load = some (d, .returned))
    (h : ∀ o, Q o { l with lock := false, asked := false, told := false }) :
    (generating prompt).wp disc Q l := by
  refine ⟨hlock, fun _ _ ↦ (Prog.wp_tryFinally _ _).mpr ?_⟩
  have hunlock (o : Except Throwable Strings.Str) :
      (perform .unlock).wp disc (Prog.exits (fun _ ↦ Q o) fun e ↦ Q (.error e)) { l with lock := true } :=
    ⟨⟨rfl, hnative, hclosing⟩, fun _ _ ↦ h o⟩
  refine (Prog.wp_bind _ _).mpr (native_wp _ rfl hnative hready fun o ↦ ?_)
  cases o with
  | ok _ => exact native_wp _ rfl hnative hready hunlock
  | error e => exact hunlock (.error e)

theorem attempt_wp {Q : Except Throwable ModelOutcome → Local → Prop} (prompt : Prompt)
    (hlock : l.lock = false) (hnative : l.native = false) (hclosing : l.closing = false)
    (hready : l.told = true ∨ ∃ d, l.load = some (d, .returned))
    (h : ∀ o, Q (.ok o) { l with lock := false, asked := false, told := false }) :
    (attempt prompt).wp disc Q l := by
  refine (Prog.wp_tryCatch _ _).mpr ((Prog.wp_bind _ _).mpr ?_)
  refine generating_wp prompt hlock hnative hclosing hready fun o ↦ ?_
  cases o <;> exact h _

theorem warmUp_wp (d : ℕ) (h : Q (.ok ()) { load := some (d, .returned) }) :
    warmUp.wp disc Q { load := some (d, .returned) } := by
  refine (Prog.wp_bind _ _).mpr ?_
  exact attempt_wp (l := { load := some (d, .returned) }) _ rfl rfl rfl (.inr ⟨d, rfl⟩) fun _ ↦ h

/-- A load gets through `doLoad` without finding another one in progress. -/
theorem doLoad_wp (d : ℕ) (path : Strings.Str) : (doLoad d path).wp disc
    (Prog.exits (fun result l ↦ l = { load := some (d, .settled result) }) fun _ _ ↦ True)
    { load := some (d, .launched) } := by
  refine ⟨trivial, fun loading hloading ↦ ?_⟩
  obtain rfl : loading = false := hloading ⟨d, rfl⟩ (.inl rfl)
  refine ⟨trivial, fun warming hwarming ↦ ?_⟩
  obtain rfl : warming = false := hwarming ⟨d, rfl⟩ (.inr rfl)
  refine ⟨⟨d, rfl⟩, fun _ _ ↦ ⟨rfl, fun _ _ ↦ ⟨rfl, fun ended _ ↦ ?_⟩⟩⟩
  cases ended with
  | returned =>
    refine ⟨⟨d, rfl⟩, fun _ _ ↦ ?_⟩
    change Prog.wp disc _ (warmUp >>= _) { load := some (d, .returned) }
    exact (Prog.wp_bind _ _).mpr (warmUp_wp d ⟨⟨rfl, d, rfl⟩, fun _ _ ↦ rfl⟩)
  | exception e => exact ⟨⟨d, rfl⟩, fun _ _ ↦ rfl⟩
  | error e => trivial

theorem loadCoroutine_wp (d : ℕ) :
    (loadCoroutine d).wp disc (fun _ _ ↦ True) { load := some (d, .launched) } := by
  refine ⟨trivial, fun path _ ↦ ?_⟩
  change Prog.wp disc _ (doLoad d path >>= _) _
  refine (Prog.wp_bind _ _).mpr (Prog.wp_mono (doLoad_wp d path) fun o l h ↦ ?_)
  cases o with
  | error e => trivial
  | ok result =>
    obtain rfl : l = _ := h
    refine ⟨rfl, fun _ _ ↦ ⟨⟨rfl, d, result, rfl⟩, fun _ _ ↦ ⟨.inl rfl, fun _ _ ↦ ⟨rfl, fun _ _ ↦ trivial⟩⟩⟩⟩

/-- A generation that has been told that the model is ready runs it. -/
theorem ask_wp {α : Type} {ready : Facade α} {fallback : α}
    (h : ∀ l : Local, l.lock = false → l.native = false → l.closing = false → l.told = true →
      ready.wp disc (fun _ _ ↦ True) l) :
    (do
      perform .request
      if ← ensureLoaded then ready else return fallback).wp disc (fun _ _ ↦ True) {} := by
  refine ⟨rfl, fun _ _ ↦ ?_⟩
  change Prog.wp disc _ (ensureLoaded >>= _) _
  refine (Prog.wp_bind _ _).mpr (Prog.wp_mono (ensureLoaded_wp true) fun o l hl ↦ ?_)
  cases o with
  | error e => trivial
  | ok loaded =>
    obtain ⟨hlock, hnative, hclosing, -, htold⟩ := hl
    cases loaded with
    | true => exact h l hlock hnative hclosing (htold rfl rfl)
    | false => trivial

variable (agentName ownerName : Strings.Str) (P : Platform)

theorem forget_wp {α : Type} {p : Facade α} (h : p.wp disc (fun _ _ ↦ True) l) :
    (forget p).wp disc (fun _ _ ↦ True) l := by
  refine (Prog.wp_bind _ _).mpr (Prog.wp_mono h fun o _ _ ↦ ?_)
  cases o <;> trivial

theorem entry_wp (call : Call) : (entry agentName ownerName P call).wp disc (fun _ _ ↦ True) {} := by
  cases call with
  | generateSmsReply senderName senderPhone message relationship instructions =>
    refine forget_wp (ask_wp fun l hlock hnative hclosing htold ↦ (Prog.wp_bind _ _).mpr ?_)
    refine attempt_wp _ hlock hnative hclosing (.inl htold) fun o ↦ ?_
    exact (Prog.wp_bind _ _).mpr (scheduleIdleUnload_wp trivial)
  | generateChatReply message =>
    refine forget_wp (ask_wp fun l hlock hnative hclosing htold ↦ (Prog.wp_bind _ _).mpr ?_)
    refine attempt_wp _ hlock hnative hclosing (.inl htold) fun o ↦ ?_
    exact (Prog.wp_bind _ _).mpr (scheduleIdleUnload_wp trivial)
  | interpretCommand commandText =>
    refine forget_wp (ask_wp fun l hlock hnative hclosing htold ↦ (Prog.wp_bind _ _).mpr ?_)
    refine attempt_wp _ hlock hnative hclosing (.inl htold) fun o ↦ ?_
    cases o with
    | text raw => exact (Prog.wp_bind _ _).mpr (scheduleIdleUnload_wp trivial)
    | unavailable => trivial
    | threw => trivial
  | loadModel modelPath =>
    refine forget_wp (p := loadModel modelPath) ⟨trivial, fun _ _ ↦ ?_⟩
    change ensureLoaded.wp disc _ _
    exact Prog.wp_mono (ensureLoaded_wp false) fun _ _ _ ↦ trivial
  | storeModelPath path => exact ⟨trivial, fun _ _ ↦ trivial⟩
  | unloadModel => exact unloadModel_wp

/-! The deferreds and the loads -/

/-- What the place of a thread says of the loads. -/
structure Knows (b : Loads) (l : Local) : Prop where
  vacant : l.mutex = .vacant → b.loadDeferred = none
  created : ∀ d, l.mutex = .created d → b.loadDeferred = none ∧ d ∈ b.starting
  published : ∀ d, l.mutex = .published d → b.loadDeferred = some d ∧ d ∈ b.starting
  running : ∀ d stage, l.load = some (d, stage) → d ∈ b.running
  current : ∀ d stage, l.load = some (d, stage) → (b.loadDeferred = some d ↔ stage.over = false)
  early : ∀ d stage, l.load = some (d, stage) → stage.early = true → ∀ r, (d, r) ∉ b.results
  result : ∀ d stage r, l.load = some (d, stage) → stage.result = some r → (d, r) ∈ b.results

/-- What holds of the loads by themselves. -/
structure Board (b : Loads) : Prop where
  starting : ∀ d ∈ b.starting, d < b.created ∧ d ∉ b.running ∧ ∀ r, (d, r) ∉ b.results
  running : ∀ d ∈ b.running, d < b.created
  results : ∀ d r, (d, r) ∈ b.results → d < b.created
  functional : ∀ d r r', (d, r) ∈ b.results → (d, r') ∈ b.results → r = r'
  completed : ∀ d r, (d, r) ∈ b.completed → (d, r) ∈ b.results
  resumed : ∀ d r, (d, r) ∈ b.resumed → (d, r) ∈ b.results
  published : ∀ d, b.loadDeferred = some d → d ∈ b.starting ∨ d ∈ b.running
  incomplete : ∀ d < b.created, (∃ r, (d, r) ∈ b.completed) ∨ d ∈ b.starting ∨ d ∈ b.running

def Inside (l : Local) : Prop := l.mutex ≠ .outside

def Busy (state : State) : Prop := state = .loading ∨ state = .warming

def Working (l : Local) : Prop := ∃ d stage, l.load = some (d, stage) ∧ stage.working = true

structure Inv (s : Shared) (ls : List Local) : Prop where
  sole : Sole Inside s.loads.mutex ls
  knows : ∀ (i : ℕ) (l : Local), ls[i]? = some l → Knows s.loads l
  unique : ∀ (i j : ℕ) (l l' : Local) (d : ℕ) (stage stage' : Stage), ls[i]? = some l → ls[j]? = some l' →
    l.load = some (d, stage) → l'.load = some (d, stage') → i = j
  inLoad : ∀ d ∈ s.loads.inLoad, ∃ (i : ℕ) (l : Local), ls[i]? = some l ∧ l.load = some (d, .inLoad)
  nodup : s.loads.inLoad.Nodup
  busy : Busy s.state → ∃ (i : ℕ) (l : Local), ls[i]? = some l ∧ Working l
  board : Board s.loads

/-- All loads in progress are the one that is published. -/
theorem Inv.inLoad_le_one {s : Shared} {ls : List Local} (h : Inv s ls) : s.loads.inLoad.length ≤ 1 := by
  have hcurrent (d : ℕ) (hd : d ∈ s.loads.inLoad) : s.loads.loadDeferred = some d := by
    obtain ⟨i, l, hi, hl⟩ := h.inLoad d hd
    exact ((h.knows i l hi).current d _ hl).mpr rfl
  have hnodup := h.nodup
  match hin : s.loads.inLoad with
  | [] => simp
  | [_] => simp
  | d :: d' :: rest =>
    have heq := (hcurrent d (by simp [hin])).symm.trans (hcurrent d' (by simp [hin]))
    simp [hin, Option.some.inj heq] at hnodup

/-- A load that has not begun is alone. -/
theorem Inv.not_busy {s : Shared} {ls : List Local} (h : Inv s ls) {i d : ℕ} {l : Local}
    (hi : ls[i]? = some l) (hl : l.load = some (d, .launched)) : ¬Busy s.state := by
  intro hbusy
  obtain ⟨j, l', hj, d', stage, hl', hworking⟩ := h.busy hbusy
  have hcurrent := ((h.knows i l hi).current d _ hl).mpr rfl
  have hcurrent' := ((h.knows j l' hj).current d' _ hl').mpr (by cases stage <;> simp_all [Stage.working, Stage.over])
  obtain rfl : d = d' := Option.some.inj (hcurrent.symm.trans hcurrent')
  obtain rfl := h.unique i j l l' d _ _ hi hj hl hl'
  obtain rfl : l = l' := Option.some.inj (hi.symm.trans hj)
  rw [hl] at hl'
  cases hl'
  cases hworking

section Step

variable {s s' : Shared} {ls new : List Local} {i : ℕ} {l l' : Local}

theorem Inv.advance (h : Inv s ls) (hi : ls[i]? = some l)
    (hnew : ∀ x ∈ new, x.mutex = .outside ∧ x.load = none)
    (hload : ∀ d stage, l'.load = some (d, stage) → ∃ stage', l.load = some (d, stage'))
    (hsole : Sole Inside s'.loads.mutex (ls.set i l'))
    (hown : Knows s'.loads l')
    (hothers : ∀ x, (∀ d stage stage', x.load = some (d, stage) → l.load = some (d, stage') → False) →
      (Inside l → x.mutex = .outside) → Knows s.loads x → Knows s'.loads x)
    (hinLoad : ∀ d ∈ s'.loads.inLoad, l'.load = some (d, .inLoad) ∨
      (d ∈ s.loads.inLoad ∧ l.load ≠ some (d, .inLoad)))
    (hnodup : s'.loads.inLoad.Nodup)
    (hbusy : Busy s'.state → Working l' ∨ (Busy s.state ∧ ¬Working l))
    (hboard : Board s'.loads) : Inv s' (ls.set i l' ++ new) := by
  have hstay {j : ℕ} {x : Local} (hj : ls[j]? = some x) (hne : j ≠ i) : (ls.set i l' ++ new)[j]? = some x := by
    refine getElem?_append_of_some ?_
    rwa [List.getElem?_set_ne (Ne.symm hne)]
  have hself : (ls.set i l' ++ new)[i]? = some l' := getElem?_append_of_some (getElem?_set_of_some hi)
  refine ⟨hsole.append fun x hx hin ↦ hin (hnew x hx).1, fun j x hj ↦ ?_, ?_, fun d hd ↦ ?_, hnodup,
    fun hb ↦ ?_, hboard⟩
  · rcases getElem?_step hj with ⟨rfl, rfl⟩ | ⟨hne, hj⟩ | ⟨-, hx⟩
    · exact hown
    · refine hothers x (fun d stage stage' hx hl ↦ hne (h.unique j i x l d _ _ hj hi hx hl)) ?_ (h.knows j x hj)
      intro hin
      by_contra hout
      exact hne ((h.sole i l hi hin).2 j x hj hout)
    · obtain ⟨hmutex, hnone⟩ := hnew x hx
      constructor <;> simp [hmutex, hnone]
  · have hback {j : ℕ} {x : Local} {d : ℕ} {stage : Stage} (hj : (ls.set i l' ++ new)[j]? = some x)
        (hx : x.load = some (d, stage)) : ∃ y stage', ls[j]? = some y ∧ y.load = some (d, stage') := by
      rcases getElem?_step hj with ⟨rfl, rfl⟩ | ⟨-, hj⟩ | ⟨-, hmem⟩
      · obtain ⟨stage', hl⟩ := hload d stage hx
        exact ⟨l, stage', hi, hl⟩
      · exact ⟨x, stage, hj, hx⟩
      · rw [(hnew x hmem).2] at hx
        cases hx
    intro j k x y d stage stage' hj hk hx hy
    obtain ⟨x', _, hj', hx'⟩ := hback hj hx
    obtain ⟨y', _, hk', hy'⟩ := hback hk hy
    exact h.unique j k x' y' d _ _ hj' hk' hx' hy'
  · rcases hinLoad d hd with hl' | ⟨hd, hl⟩
    · exact ⟨i, l', hself, hl'⟩
    · obtain ⟨j, x, hj, hx⟩ := h.inLoad d hd
      refine ⟨j, x, hstay hj ?_, hx⟩
      intro heq
      subst heq
      rw [hi] at hj
      cases hj
      exact hl hx
  · rcases hbusy hb with hworking | ⟨hb, hworking⟩
    · exact ⟨i, l', hself, hworking⟩
    · obtain ⟨j, x, hj, hx⟩ := h.busy hb
      refine ⟨j, x, hstay hj ?_, hx⟩
      intro heq
      subst heq
      rw [hi] at hj
      cases hj
      exact hworking hx

theorem Inv.keep (h : Inv s ls) (hi : ls[i]? = some l)
    (hnew : ∀ x ∈ new, x.mutex = .outside ∧ x.load = none) (hload : l'.load = l.load)
    (hin : s'.loads.inLoad = s.loads.inLoad) (hbusy : Busy s'.state → Busy s.state)
    (hsole : Sole Inside s'.loads.mutex (ls.set i l')) (hown : Knows s'.loads l')
    (hothers : ∀ x, (Inside l → x.mutex = .outside) → Knows s.loads x → Knows s'.loads x)
    (hboard : Board s'.loads) : Inv s' (ls.set i l' ++ new) := by
  refine h.advance hi hnew (fun d stage hl ↦ ⟨stage, hload ▸ hl⟩) hsole hown (fun x _ ↦ hothers x) ?_ ?_ ?_
    hboard
  · intro d hd
    rw [hin] at hd
    rw [hload]
    by_cases hl : l.load = some (d, .inLoad)
    · exact .inl hl
    · exact .inr ⟨hd, hl⟩
  · rw [hin]
    exact h.nodup
  · intro hb
    by_cases hworking : Working l
    · exact .inl (by rwa [Working, hload])
    · exact .inr ⟨hbusy hb, hworking⟩

theorem Inv.frame (h : Inv s ls) (hi : ls[i]? = some l)
    (hnew : ∀ x ∈ new, x.mutex = .outside ∧ x.load = none) (hmutex : l'.mutex = l.mutex)
    (hload : l'.load = l.load) (hloads : s'.loads = s.loads) (hbusy : Busy s'.state → Busy s.state) :
    Inv s' (ls.set i l' ++ new) := by
  have hknows := h.knows i l hi
  have hin : Inside l' → Inside l := fun hin ↦ by rwa [Inside, ← hmutex]
  refine h.keep hi hnew hload (by rw [hloads]) hbusy ?_ ?_ ?_ ?_
  · rw [hloads]
    exact h.sole.keep hi hin
  · rw [hloads]
    exact ⟨by rw [hmutex]; exact hknows.vacant, by rw [hmutex]; exact hknows.created,
      by rw [hmutex]; exact hknows.published, by rw [hload]; exact hknows.running,
      by rw [hload]; exact hknows.current, by rw [hload]; exact hknows.early,
      by rw [hload]; exact hknows.result⟩
  · intro x _ hx
    rwa [hloads]
  · rw [hloads]
    exact h.board

/-- The place of a thread says the same of loads that differ in the mutex. -/
theorem Knows.mutex {b : Loads} {mutex : Bool} {x : Local} (h : Knows b x) : Knows { b with mutex } x :=
  ⟨h.vacant, h.created, h.published, h.running, h.current, h.early, h.result⟩

theorem Board.mutex {b : Loads} {mutex : Bool} (h : Board b) : Board { b with mutex } :=
  ⟨h.starting, h.running, h.results, h.functional, h.completed, h.resumed, h.published, h.incomplete⟩

theorem Inv.lockMutex (h : Inv s ls) (hi : ls[i]? = some l) (hfree : s.loads.mutex = false) :
    Inv { s with loads.mutex := true } (ls.set i { l with mutex := .inside } ++ []) := by
  have hknows := h.knows i l hi
  have hsole := h.sole
  rw [hfree] at hsole
  refine h.keep hi (by simp) rfl rfl id hsole.acquire ?_ (fun x _ hx ↦ hx.mutex) h.board.mutex
  exact ⟨nofun, nofun, nofun, hknows.running, hknows.current, hknows.early, hknows.result⟩

theorem Inv.unlockMutex (h : Inv s ls) (hi : ls[i]? = some l) (hin : Inside l) :
    Inv { s with loads.mutex := false } (ls.set i { l with mutex := .outside } ++ []) := by
  have hknows := h.knows i l hi
  have hsole : Sole Inside false (ls.set i { l with mutex := .outside }) :=
    h.sole.release hi hin (by simp [Inside])
  refine h.keep hi (by simp) rfl rfl id hsole ?_ (fun x _ hx ↦ hx.mutex) h.board.mutex
  exact ⟨nofun, nofun, nofun, hknows.running, hknows.current, hknows.early, hknows.result⟩

theorem Inv.vacant (h : Inv s ls) (hi : ls[i]? = some l) (hin : l.mutex = .inside)
    (hnone : s.loads.loadDeferred = none) : Inv s (ls.set i { l with mutex := .vacant } ++ []) := by
  have hknows := h.knows i l hi
  refine h.keep hi (by simp) rfl rfl id (h.sole.keep hi fun _ ↦ by simp [Inside, hin]) ?_ (fun x _ hx ↦ hx)
    h.board
  exact ⟨fun _ ↦ hnone, nofun, nofun, hknows.running, hknows.current, hknows.early, hknows.result⟩

theorem Inv.newDeferred (h : Inv s ls) (hi : ls[i]? = some l) (hvacant : l.mutex = .vacant) :
    Inv { s with loads.created := s.loads.created + 1, loads.starting := s.loads.created :: s.loads.starting }
      (ls.set i { l with mutex := .created s.loads.created } ++ []) := by
  have hknows := h.knows i l hi
  have hboard := h.board
  refine h.keep hi (by simp) rfl rfl id (h.sole.keep hi fun _ ↦ by simp [Inside, hvacant]) ?_ ?_ ?_
  · refine ⟨nofun, fun d hd ↦ ?_, nofun, hknows.running, hknows.current, hknows.early, hknows.result⟩
    cases hd
    exact ⟨hknows.vacant hvacant, List.mem_cons_self⟩
  · intro x _ hx
    refine ⟨hx.vacant, fun d hd ↦ ?_, fun d hd ↦ ?_, hx.running, hx.current, hx.early, hx.result⟩
    · exact ⟨(hx.created d hd).1, List.mem_cons_of_mem _ (hx.created d hd).2⟩
    · exact ⟨(hx.published d hd).1, List.mem_cons_of_mem _ (hx.published d hd).2⟩
  · refine ⟨?_, fun d hd ↦ Nat.lt_succ_of_lt (hboard.running d hd),
      fun d r hr ↦ Nat.lt_succ_of_lt (hboard.results d r hr), hboard.functional, hboard.completed,
      hboard.resumed, fun d hd ↦ (hboard.published d hd).imp_left (List.mem_cons_of_mem _), ?_⟩
    · intro d hd
      rcases List.mem_cons.mp hd with rfl | hd
      · exact ⟨Nat.lt_succ_self _, fun hr ↦ absurd (hboard.running _ hr) (lt_irrefl _),
          fun r hr ↦ absurd (hboard.results _ r hr) (lt_irrefl _)⟩
      · obtain ⟨hlt, hfresh⟩ := hboard.starting d hd
        exact ⟨Nat.lt_succ_of_lt hlt, hfresh⟩
    · intro d hd
      rcases Nat.lt_succ_iff_lt_or_eq.mp hd with hlt | rfl
      · exact (hboard.incomplete d hlt).imp_right (Or.imp_left (List.mem_cons_of_mem _))
      · exact .inr (.inl List.mem_cons_self)

theorem Inv.publish {d : ℕ} (h : Inv s ls) (hi : ls[i]? = some l) (hcreated : l.mutex = .created d) :
    Inv { s with loads.loadDeferred := some d }
      (ls.set i { l with mutex := .published d, joined := some d } ++ []) := by
  have hknows := h.knows i l hi
  have hboard := h.board
  obtain ⟨hnone, hstarting⟩ := hknows.created d hcreated
  -- the loads that run are over, and the new one is none of them
  have hcurrent {x : Local} (hx : Knows s.loads x) (e : ℕ) (stage : Stage) (hl : x.load = some (e, stage)) :
      some d = some e ↔ stage.over = false := by
    have hover := hx.current e stage hl
    have hne : d ≠ e := by
      intro heq
      subst heq
      exact (hboard.starting d hstarting).2.1 (hx.running d stage hl)
    rw [hnone] at hover
    simpa [hne] using hover
  refine h.keep hi (by simp) rfl rfl id (h.sole.keep hi fun _ ↦ by simp [Inside, hcreated]) ?_ ?_ ?_
  · refine ⟨nofun, nofun, fun e he ↦ ?_, hknows.running,
      fun e stage hl ↦ hcurrent hknows e stage hl, hknows.early, hknows.result⟩
    cases he
    exact ⟨rfl, hstarting⟩
  · intro x hout hx
    have hmutex := hout (by simp [Inside, hcreated])
    exact ⟨by simp [hmutex], by simp [hmutex], by simp [hmutex], hx.running, hcurrent hx, hx.early, hx.result⟩
  · refine ⟨hboard.starting, hboard.running, hboard.results, hboard.functional, hboard.completed,
      hboard.resumed, fun e he ↦ ?_, hboard.incomplete⟩
    cases he
    exact .inl hstarting

theorem Inv.await {d : ℕ} {r : Bool} (h : Inv s ls) (hi : ls[i]? = some l) (hl' : l'.mutex = l.mutex ∧ l'.load = l.load)
    (hdone : s.loads.completed.lookup d = some r) :
    Inv { s with loads.resumed := (d, r) :: s.loads.resumed } (ls.set i l' ++ []) := by
  have hknows := h.knows i l hi
  have hboard := h.board
  have hsame {x : Local} (hx : Knows s.loads x) :
      Knows { s.loads with resumed := (d, r) :: s.loads.resumed } x :=
    ⟨hx.vacant, hx.created, hx.published, hx.running, hx.current, hx.early, hx.result⟩
  have hframe : Inv s (ls.set i l' ++ []) := h.frame hi (by simp) hl'.1 hl'.2 rfl id
  refine ⟨hframe.sole, fun j x hj ↦ hsame (hframe.knows j x hj), hframe.unique, hframe.inLoad, hframe.nodup,
    hframe.busy, ?_⟩
  refine ⟨hboard.starting, hboard.running, hboard.results, hboard.functional, hboard.completed, ?_,
    hboard.published, hboard.incomplete⟩
  intro e r' hr
  rcases List.mem_cons.mp hr with heq | hr
  · cases heq
    obtain ⟨before, after, hcompleted, -⟩ := List.lookup_eq_some_iff.mp hdone
    exact hboard.completed d r (by simp [hcompleted])
  · exact hboard.resumed e r' hr

theorem Inv.takeBack {d : ℕ} {r : Bool} (h : Inv s ls) (hi : ls[i]? = some l) (hin : l.mutex = .inside)
    (hl : l.load = some (d, .settled r)) :
    Inv { s with loads.loadDeferred := none } (ls.set i { l with load := some (d, .cleared r) } ++ []) := by
  have hknows := h.knows i l hi
  have hboard := h.board
  have hcurrent : s.loads.loadDeferred = some d := (hknows.current d _ hl).mpr rfl
  have hrunning := hknows.running d _ hl
  refine h.advance hi (by simp) ?_ (h.sole.keep hi fun _ ↦ by simp [Inside, hin]) ?_ ?_ ?_ h.nodup ?_ ?_
  · intro e stage he
    cases he
    exact ⟨_, hl⟩
  · refine ⟨fun _ ↦ rfl, by simp [hin], by simp [hin], fun e stage he ↦ ?_, fun e stage he ↦ ?_,
      fun e stage he ↦ ?_, fun e stage r' he hr ↦ ?_⟩ <;> cases he
    · exact hrunning
    · simp [Stage.over]
    · exact nofun
    · cases hr
      exact hknows.result d _ _ hl rfl
  · intro x hne hout hx
    have hmutex := hout (by simp [Inside, hin])
    refine ⟨by simp [hmutex], by simp [hmutex], by simp [hmutex], hx.running, fun e stage he ↦ ?_, hx.early,
      hx.result⟩
    have hover := hx.current e stage he
    have hde : d ≠ e := by
      intro heq
      subst heq
      exact hne d stage _ he hl
    rw [hcurrent] at hover
    simpa [hde] using hover
  · intro e he
    exact .inr ⟨he, by simp [hl]⟩
  · intro hb
    refine .inr ⟨hb, fun hworking ↦ ?_⟩
    obtain ⟨e, stage, he, hstage⟩ := hworking
    rw [hl] at he
    cases he
    cases hstage
  · exact ⟨hboard.starting, hboard.running, hboard.results, hboard.functional, hboard.completed,
      hboard.resumed, nofun, hboard.incomplete⟩

theorem Inv.complete {d : ℕ} {r : Bool} (h : Inv s ls) (hi : ls[i]? = some l)
    (hl : l.load = some (d, .cleared r)) :
    Inv { s with
      loads.completed := s.loads.completed ++ [(d, r)]
      loads.running := s.loads.running.filter (· ≠ d) } (ls.set i { l with load := none } ++ []) := by
  have hknows := h.knows i l hi
  have hboard := h.board
  have hother : s.loads.loadDeferred ≠ some d := fun hsome ↦ by
    cases (hknows.current d _ hl).mp hsome
  refine h.advance hi (by simp) nofun (h.sole.keep hi id) ?_ ?_ ?_ h.nodup ?_ ?_
  · exact ⟨hknows.vacant, hknows.created, hknows.published, nofun, nofun, nofun, nofun⟩
  · intro x hne _ hx
    refine ⟨hx.vacant, hx.created, hx.published, fun e stage he ↦ ?_, hx.current, hx.early, hx.result⟩
    have hde : e ≠ d := by
      intro heq
      subst heq
      exact hne e stage _ he hl
    exact List.mem_filter.mpr ⟨hx.running e stage he, by simpa using hde⟩
  · intro e he
    exact .inr ⟨he, by simp [hl]⟩
  · intro hb
    refine .inr ⟨hb, fun hworking ↦ ?_⟩
    obtain ⟨e, stage, he, hstage⟩ := hworking
    rw [hl] at he
    cases he
    cases hstage
  · refine ⟨?_, fun e he ↦ hboard.running e (List.mem_filter.mp he).1, hboard.results, hboard.functional, ?_,
      hboard.resumed, fun e he ↦ ?_, fun e he ↦ ?_⟩
    · intro e he
      obtain ⟨hlt, hnot, hfresh⟩ := hboard.starting e he
      exact ⟨hlt, fun hmem ↦ hnot (List.mem_filter.mp hmem).1, hfresh⟩
    · intro e r' he
      rcases List.mem_append.mp he with he | he
      · exact hboard.completed e r' he
      · cases List.mem_singleton.mp he
        exact hknows.result d _ r hl rfl
    · have hde : e ≠ d := by
        intro heq
        subst heq
        exact hother he
      exact (hboard.published e he).imp_right fun hr ↦ List.mem_filter.mpr ⟨hr, by simpa using hde⟩
    · by_cases hde : e = d
      · exact .inl ⟨r, by simp [hde]⟩
      · rcases hboard.incomplete e he with ⟨r', hr⟩ | hs | hr
        · exact .inl ⟨r', List.mem_append_left _ hr⟩
        · exact .inr (.inl hs)
        · exact .inr (.inr (List.mem_filter.mpr ⟨hr, by simpa using hde⟩))

theorem Inv.loadBegin {d : ℕ} (h : Inv s ls) (hi : ls[i]? = some l) (hl : l.load = some (d, .loading)) :
    Inv { s with loads.inLoad := d :: s.loads.inLoad } (ls.set i { l with load := some (d, .inLoad) } ++ []) := by
  have hknows := h.knows i l hi
  have hboard := h.board
  refine h.advance hi (by simp) ?_ (h.sole.keep hi id) ?_ ?_ ?_ (List.nodup_cons.mpr ⟨fun hd ↦ ?_, h.nodup⟩)
    ?_ ?_
  · intro e stage he
    cases he
    exact ⟨_, hl⟩
  · refine ⟨hknows.vacant, hknows.created, hknows.published, fun e stage he ↦ ?_, fun e stage he ↦ ?_,
      fun e stage he ↦ ?_, fun e stage r he hr ↦ ?_⟩ <;> cases he
    · exact hknows.running d _ hl
    · exact hknows.current d .loading hl
    · exact fun _ ↦ hknows.early d _ hl rfl
    · cases hr
  · intro x _ _ hx
    exact ⟨hx.vacant, hx.created, hx.published, hx.running, hx.current, hx.early, hx.result⟩
  · intro e he
    rcases List.mem_cons.mp he with rfl | he
    · exact .inl rfl
    · exact .inr ⟨he, by simp [hl]⟩
  · -- another thread in `smolLM.load` for `d` would be this one
    obtain ⟨j, x, hj, hx⟩ := h.inLoad d hd
    obtain rfl := h.unique i j l x d _ _ hi hj hl hx
    rw [hi] at hj
    cases hj
    rw [hl] at hx
    cases hx
  · intro _
    exact .inl ⟨d, .inLoad, rfl, rfl⟩
  · exact ⟨hboard.starting, hboard.running, hboard.results, hboard.functional, hboard.completed,
      hboard.resumed, hboard.published, hboard.incomplete⟩

theorem mem_ended_results {b : Loads} {d e : ℕ} {ended : LoadEnd} {r : Bool} :
    (e, r) ∈ (b.ended d ended).results ↔
      (e = d ∧ (Stage.loadEnd ended).result = some r) ∨ (e, r) ∈ b.results := by
  cases ended with
  | returned => simp [Loads.ended, Stage.loadEnd, Stage.result, eq_comm]
  | exception _ => simp [Loads.ended, Stage.loadEnd, Stage.result, eq_comm]
  | error _ => simp [Loads.ended, Stage.loadEnd, Stage.result]

theorem Knows.ended {b : Loads} {d : ℕ} {x : Local} (ended : LoadEnd) (h : Knows b x)
    (hne : ∀ e stage, x.load = some (e, stage) → e ≠ d) : Knows (b.ended d ended) x := by
  refine ⟨h.vacant, h.created, h.published, h.running, h.current, fun e stage he hearly r hr ↦ ?_,
    fun e stage r he hr ↦ mem_ended_results.mpr (.inr (h.result e stage r he hr))⟩
  rcases mem_ended_results.mp hr with ⟨heq, -⟩ | hr
  · exact hne e stage he heq
  · exact h.early e stage he hearly r hr

theorem Board.ended {b : Loads} {d : ℕ} (ended : LoadEnd) (h : Board b) (hrunning : d ∈ b.running)
    (hfresh : ∀ r, (d, r) ∉ b.results) : Board (b.ended d ended) := by
  have hold {e : ℕ} {r : Bool} (hr : (e, r) ∈ b.results) : (e, r) ∈ (b.ended d ended).results :=
    mem_ended_results.mpr (.inr hr)
  refine ⟨fun e he ↦ ?_, h.running, fun e r hr ↦ ?_, fun e r r' hr hr' ↦ ?_,
    fun e r hr ↦ hold (h.completed e r hr), fun e r hr ↦ hold (h.resumed e r hr), h.published, h.incomplete⟩
  · obtain ⟨hlt, hnot, hnone⟩ := h.starting e he
    refine ⟨hlt, hnot, fun r hr ↦ ?_⟩
    rcases mem_ended_results.mp hr with ⟨rfl, -⟩ | hr
    · exact hnot hrunning
    · exact hnone r hr
  · rcases mem_ended_results.mp hr with ⟨rfl, -⟩ | hr
    · exact h.running e hrunning
    · exact h.results e r hr
  · rcases mem_ended_results.mp hr with ⟨he, hr⟩ | hr <;>
      rcases mem_ended_results.mp hr' with ⟨he', hr'⟩ | hr'
    · exact Option.some.inj (hr.symm.trans hr')
    · exact absurd (he ▸ hr') (hfresh r')
    · exact absurd (he' ▸ hr) (hfresh r)
    · exact h.functional e r r' hr hr'

theorem Inv.loadEnd {d : ℕ} (ended : LoadEnd) (h : Inv s ls) (hi : ls[i]? = some l)
    (hl : l.load = some (d, .inLoad)) (hloads : s'.loads = s.loads.ended d ended) :
    Inv s' (ls.set i { l with load := some (d, .loadEnd ended) } ++ []) := by
  have hknows := h.knows i l hi
  have hrunning := hknows.running d _ hl
  have hcurrent := hknows.current d _ hl
  have hin : s'.loads.inLoad = s.loads.inLoad.filter (· ≠ d) := by
    rw [hloads]
    rfl
  refine h.advance hi (by simp) ?_ ?_ ?_ ?_ ?_ ?_ ?_ ?_
  · intro e stage he
    cases he
    exact ⟨_, hl⟩
  · rw [hloads]
    exact h.sole.keep hi id
  · rw [hloads]
    refine ⟨hknows.vacant, hknows.created, hknows.published, fun e stage he ↦ ?_, fun e stage he ↦ ?_,
      fun e stage he hearly ↦ ?_, fun e stage r he hr ↦ ?_⟩ <;> cases he
    · exact hrunning
    · cases ended <;> exact hcurrent
    · cases ended <;> cases hearly
    · exact mem_ended_results.mpr (.inl ⟨rfl, hr⟩)
  · intro x hne _ hx
    rw [hloads]
    refine hx.ended ended fun e stage he heq ↦ ?_
    rw [heq] at he
    exact hne d stage _ he hl
  · intro e he
    rw [hin] at he
    obtain ⟨he, hde⟩ := List.mem_filter.mp he
    refine .inr ⟨he, fun heq ↦ ?_⟩
    rw [hl] at heq
    cases heq
    simp at hde
  · rw [hin]
    exact h.nodup.filter _
  · intro _
    exact .inl ⟨d, .loadEnd ended, rfl, by cases ended <;> rfl⟩
  · rw [hloads]
    exact h.board.ended ended hrunning (hknows.early d _ hl rfl)

theorem Inv.restage {d : ℕ} {stage stage' : Stage} (h : Inv s ls) (hi : ls[i]? = some l)
    (hl : l.load = some (d, stage)) (hl' : l'.load = some (d, stage')) (hmutex : l'.mutex = l.mutex)
    (hloads : s'.loads = s.loads) (hover : stage'.over = stage.over)
    (hearly : stage'.early = true → stage.early = true)
    (hresult : ∀ r, stage'.result = some r → stage.result = some r) (hin : stage ≠ .inLoad)
    (hbusy : Busy s'.state → stage'.working = true ∨ (Busy s.state ∧ stage.working = false)) :
    Inv s' (ls.set i l' ++ []) := by
  have hknows := h.knows i l hi
  refine h.advance hi (by simp) ?_ ?_ ?_ ?_ ?_ ?_ ?_ ?_
  · intro e st he
    rw [hl'] at he
    cases he
    exact ⟨stage, hl⟩
  · rw [hloads]
    exact h.sole.keep hi fun hin ↦ by rwa [Inside, ← hmutex]
  · rw [hloads]
    refine ⟨by rw [hmutex]; exact hknows.vacant, by rw [hmutex]; exact hknows.created,
      by rw [hmutex]; exact hknows.published, fun e st he ↦ ?_, fun e st he ↦ ?_, fun e st he ↦ ?_,
      fun e st r he hr ↦ ?_⟩ <;> rw [hl'] at he <;> cases he
    · exact hknows.running d _ hl
    · rw [hover]
      exact hknows.current d _ hl
    · exact fun he ↦ hknows.early d _ hl (hearly he)
    · exact hknows.result d _ r hl (hresult r hr)
  · intro x _ _ hx
    rwa [hloads]
  · intro e he
    rw [hloads] at he
    refine .inr ⟨he, fun heq ↦ ?_⟩
    rw [hl] at heq
    cases heq
    exact hin rfl
  · rw [hloads]
    exact h.nodup
  · intro hb
    rcases hbusy hb with hworking | ⟨hb, hworking⟩
    · exact .inl ⟨d, stage', hl', hworking⟩
    · refine .inr ⟨hb, fun hw ↦ ?_⟩
      obtain ⟨e, st, he, hst⟩ := hw
      rw [hl] at he
      cases he
      rw [hworking] at hst
      cases hst
  · rw [hloads]
    exact h.board

theorem setState_load (l : Local) (state : State) :
    (disc.next l (.setState state) ()).load = l.load.map fun p ↦ (p.1, p.2.setState state) := rfl

theorem Inv.setState {state : State} (h : Inv s ls) (hi : ls[i]? = some l)
    (hallow : disc.allow l (.setState state)) {closing : Bool} :
    Inv { s with state, closing } (ls.set i (disc.next l (.setState state) ()) ++ []) := by
  cases state with
  | notLoaded =>
    have hstay (stage : Stage) : stage.setState .notLoaded = stage := by
      cases stage <;> rfl
    refine h.frame hi (by simp) rfl ?_ rfl (by simp [Busy])
    rw [setState_load]
    simp [hstay]
  | loading =>
    obtain ⟨d, hl⟩ := hallow
    have hl' : (disc.next l (.setState .loading) ()).load = some (d, .loading) := by
      rw [setState_load, hl]
      rfl
    exact h.restage hi hl hl' rfl rfl rfl (fun _ ↦ rfl) nofun nofun fun _ ↦ .inl rfl
  | warming =>
    obtain ⟨d, hl⟩ := hallow
    have hl' : (disc.next l (.setState .warming) ()).load = some (d, .returned) := by
      rw [setState_load, hl]
      rfl
    exact h.restage hi hl hl' rfl rfl rfl id (fun _ ↦ id) nofun fun _ ↦ .inl rfl
  | ready =>
    obtain ⟨-, d, hl⟩ := hallow
    have hl' : (disc.next l (.setState .ready) ()).load = some (d, .settled true) := by
      rw [setState_load, hl]
      rfl
    exact h.restage hi hl hl' rfl rfl rfl nofun (fun _ ↦ id) nofun (by simp [Busy])
  | error =>
    obtain ⟨d, hl⟩ := hallow
    have hl' : (disc.next l (.setState .error) ()).load = some (d, .settled false) := by
      rw [setState_load, hl]
      rfl
    exact h.restage hi hl hl' rfl rfl rfl nofun (fun _ ↦ id) nofun (by simp [Busy])

theorem Inv.append {x : Local} (h : Inv s ls) (hout : x.mutex = .outside) (hknows : Knows s.loads x)
    (hfresh : ∀ (j : ℕ) (y : Local) (d : ℕ) (stage stage' : Stage), ls[j]? = some y → y.load = some (d, stage) →
      x.load = some (d, stage') → False) : Inv s (ls ++ [x]) := by
  have hget {j : ℕ} {y : Local} (hj : (ls ++ [x])[j]? = some y) : ls[j]? = some y ∨ (j = ls.length ∧ y = x) := by
    rw [List.getElem?_append] at hj
    split at hj
    · exact .inl hj
    · obtain ⟨hlt, heq⟩ := List.getElem?_eq_some_iff.mp hj
      simp only [List.length_singleton] at hlt
      exact .inr ⟨by omega, by simpa using heq.symm⟩
  refine ⟨h.sole.append (by simp [Inside, hout]), fun j y hj ↦ ?_, ?_, fun d hd ↦ ?_, h.nodup, fun hb ↦ ?_, h.board⟩
  · rcases hget hj with hj | ⟨-, rfl⟩
    · exact h.knows j y hj
    · exact hknows
  · intro j k y z d stage stage' hj hk hy hz
    rcases hget hj with hj | ⟨hj, hyx⟩ <;> rcases hget hk with hk | ⟨hk, hzx⟩
    · exact h.unique j k y z d _ _ hj hk hy hz
    · exact (hfresh j y d _ _ hj hy (hzx ▸ hz)).elim
    · exact (hfresh k z d _ _ hk hz (hyx ▸ hy)).elim
    · exact hj.trans hk.symm
  · obtain ⟨j, y, hj, hy⟩ := h.inLoad d hd
    exact ⟨j, y, getElem?_append_of_some hj, hy⟩
  · obtain ⟨j, y, hj, hy⟩ := h.busy hb
    exact ⟨j, y, getElem?_append_of_some hj, hy⟩

theorem Inv.launchLoad {d : ℕ} (h : Inv s ls) (hi : ls[i]? = some l) (hpublished : l.mutex = .published d) :
    Inv { s with
      loads.starting := s.loads.starting.filter (· ≠ d), loads.running := d :: s.loads.running }
      (ls.set i { l with mutex := .inside } ++ [{ load := some (d, .launched) }]) := by
  have hknows := h.knows i l hi
  have hboard := h.board
  obtain ⟨hcurrent, hstarting⟩ := hknows.published d hpublished
  obtain ⟨hlt, hnot, hfresh⟩ := hboard.starting d hstarting
  have hmoved : Inv { s with
      loads.starting := s.loads.starting.filter (· ≠ d), loads.running := d :: s.loads.running }
      (ls.set i { l with mutex := .inside } ++ []) := by
    refine h.keep hi (by simp) rfl rfl id (h.sole.keep hi fun _ ↦ by simp [Inside, hpublished]) ?_ ?_ ?_
    · exact ⟨nofun, nofun, nofun, fun e st he ↦ List.mem_cons_of_mem _ (hknows.running e st he),
        hknows.current, hknows.early, hknows.result⟩
    · intro x hout hx
      have hmutex := hout (by simp [Inside, hpublished])
      exact ⟨by simp [hmutex], by simp [hmutex], by simp [hmutex],
        fun e st he ↦ List.mem_cons_of_mem _ (hx.running e st he), hx.current, hx.early, hx.result⟩
    · refine ⟨fun e he ↦ ?_, List.forall_mem_cons.mpr ⟨hlt, hboard.running⟩, hboard.results, hboard.functional,
        hboard.completed, hboard.resumed, fun e he ↦ ?_, fun e he ↦ ?_⟩
      · obtain ⟨he, hde⟩ := List.mem_filter.mp he
        obtain ⟨hlt', hnot', hfresh'⟩ := hboard.starting e he
        refine ⟨hlt', fun hmem ↦ ?_, hfresh'⟩
        rcases List.mem_cons.mp hmem with rfl | hmem
        · simp at hde
        · exact hnot' hmem
      · obtain rfl : d = e := Option.some.inj (hcurrent.symm.trans he)
        exact .inr List.mem_cons_self
      · by_cases hde : e = d
        · exact .inr (.inr (by simp [hde]))
        · rcases hboard.incomplete e he with hc | hs | hr
          · exact .inl hc
          · exact .inr (.inl (List.mem_filter.mpr ⟨hs, by simpa using hde⟩))
          · exact .inr (.inr (List.mem_cons_of_mem _ hr))
  rw [List.append_nil] at hmoved
  refine hmoved.append rfl ⟨nofun, nofun, nofun, fun e st he ↦ ?_, fun e st he ↦ ?_, fun e st he _ ↦ ?_,
    fun e st r he hr ↦ ?_⟩ ?_
  · cases he
    exact List.mem_cons_self
  · cases he
    exact iff_of_true hcurrent rfl
  · cases he
    exact hfresh
  · cases he
    cases hr
  · intro j y e st st' hj hy he
    cases he
    have hj' : (ls.set i { l with mutex := .inside } ++ [])[j]? = some y := by rwa [List.append_nil]
    rcases getElem?_step hj' with ⟨rfl, rfl⟩ | ⟨-, hj⟩ | ⟨-, hmem⟩
    · exact hnot (hknows.running d st hy)
    · exact hnot ((h.knows j y hj).running d st hy)
    · cases hmem

theorem Inv.congr (h : Inv s ls) (hloads : s'.loads = s.loads) (hstate : s'.state = s.state) : Inv s' ls := by
  refine ⟨?_, ?_, h.unique, ?_, ?_, ?_, ?_⟩
  · rw [hloads]
    exact h.sole
  · rw [hloads]
    exact h.knows
  · rw [hloads]
    exact h.inLoad
  · rw [hloads]
    exact h.nodup
  · rw [hstate]
    exact h.busy
  · rw [hloads]
    exact h.board

end Step

def spawnLocal : FacadeOp → Local
  | .launchLoad d => { load := some (d, .launched) }
  | _ => {}

theorem told_loads (s : Shared) (thread : ℕ) (ticket : Ticket) : (s.told thread ticket).loads = s.loads := by
  unfold Shared.told
  split <;> rfl

theorem told_state (s : Shared) (thread : ℕ) (ticket : Ticket) : (s.told thread ticket).state = s.state := by
  unfold Shared.told
  split <;> rfl

/-- A load coroutine does not find another load in progress. -/
theorem Inv.may {s : Shared} {ls : List Local} {i : ℕ} {l : Local} {state : State} (h : Inv s ls)
    (hi : ls[i]? = some l) : disc.may l (.stateIs state) (decide (s.state = state)) := by
  intro hlaunched hstate
  obtain ⟨d, hl⟩ := hlaunched
  refine decide_eq_false fun heq ↦ h.not_busy hi hl ?_
  rwa [← heq] at hstate

theorem Inv.call {errors : Bool} {s s' : Shared} {ls : List Local} {i : ℕ} {l : Local} {op : FacadeOp}
    {offer r : facadeSig.Resp op} (h : Inv s ls) (hi : ls[i]? = some l) (hallow : disc.allow l op)
    (hact : act errors i op offer s = some (r, s')) : disc.may l op r ∧
      Inv s' (ls.set i (disc.next l op r) ++ ((spawned op).map fun _ ↦ spawnLocal op).toList) := by
  cases op with
  | stateIs state =>
    cases hact
    refine ⟨h.may hi, h.frame hi (by simp [spawned]) rfl rfl ?_ ?_⟩
    · split
      · exact told_loads ..
      · rfl
    · split
      · rw [told_state]
        exact id
      · exact id
  | setState state =>
    cases hact
    exact ⟨trivial, h.setState hi hallow⟩
  | loadBegin d path =>
    cases hact
    exact ⟨trivial, h.loadBegin hi hallow⟩
  | loadEnd d =>
    simp only [act] at hact
    cases offer with
    | returned =>
      cases hact
      exact ⟨trivial, h.loadEnd .returned hi hallow rfl⟩
    | exception e =>
      cases hact
      exact ⟨trivial, h.loadEnd (.exception e) hi hallow rfl⟩
    | error e =>
      dsimp only at hact
      split at hact
      · cases hact
        exact ⟨trivial, h.loadEnd (.error e) hi hallow rfl⟩
      · cases hact
  | lockMutex =>
    simp only [act] at hact
    split at hact
    · cases hact
    · rename_i hmutex
      cases hact
      exact ⟨trivial, h.lockMutex hi (by simpa using hmutex)⟩
  | unlockMutex =>
    cases hact
    refine ⟨trivial, h.unlockMutex hi ?_⟩
    rcases hallow with hin | hin <;> simp [Inside, hin]
  | getDeferred =>
    cases hact
    refine ⟨trivial, ?_⟩
    cases hd : s.loads.loadDeferred with
    | none => exact h.vacant hi hallow hd
    | some d => exact h.frame hi (by simp [spawned]) rfl rfl (told_loads ..) (by rw [told_state]; exact id)
  | newDeferred =>
    cases hact
    exact ⟨trivial, h.newDeferred hi hallow⟩
  | setDeferred deferred =>
    cases deferred with
    | none =>
      cases hact
      obtain ⟨hin, d, r, hl⟩ := hallow
      have hnext : disc.next l (.setDeferred none) () = { l with load := some (d, .cleared r) } := by
        simp [disc, hl, Stage.result]
      refine ⟨trivial, ?_⟩
      rw [hnext]
      exact h.takeBack hi hin hl
    | some d =>
      cases hact
      refine ⟨trivial, (h.publish hi hallow).congr ?_ (told_state ..)⟩
      dsimp only
      rw [told_loads]
  | launchLoad d =>
    cases hact
    exact ⟨trivial, h.launchLoad hi hallow⟩
  | complete d result =>
    cases hact
    exact ⟨trivial, h.complete hi hallow⟩
  | await d =>
    simp only [act] at hact
    split at hact
    · rename_i result hresult
      cases hact
      exact ⟨trivial, h.await hi ⟨rfl, rfl⟩ hresult⟩
    · cases hact
  | lock =>
    simp only [act] at hact
    split at hact
    · cases hact
    · cases hact
      exact ⟨trivial, h.frame hi (by simp [spawned]) rfl rfl rfl id⟩
  | launchIdleUnload job =>
    cases hact
    exact ⟨trivial, h.frame hi (by simp [spawned, spawnLocal]) rfl rfl rfl id⟩
  | request | getPath | setPath path | unlock | enter call | leave call | close | getJob | setJob job | cancel job
  | newJob | delay job =>
    cases hact
    exact ⟨trivial, h.frame hi (by simp [spawned]) rfl rfl rfl id⟩

theorem knows_idle (b : Loads) : Knows b {} where
  vacant h := by cases h
  created _ h := by cases h
  published _ h := by cases h
  running _ _ h := by cases h
  current _ _ h := by cases h
  early _ _ h := by cases h
  result _ _ _ h := by cases h

theorem Inv.start {s : Shared} {ls : List Local} (h : Inv s ls) : Inv s (ls ++ [({} : Local)]) :=
  h.append rfl (knows_idle _) fun _ _ _ _ _ _ _ hl ↦ by cases hl

theorem inv_init : Inv .init [] := by
  refine ⟨.nil, by simp, by simp, by simp [Shared.init], .nil, by simp [Busy, Shared.init], ?_⟩
  constructor <;> simp [Shared.init]

theorem spawn_wp (op : FacadeOp) (p : Facade Unit) (h : spawned op = some p) :
    p.wp disc (fun _ _ ↦ True) (spawnLocal op) := by
  cases op <;> cases h
  · exact loadCoroutine_wp _
  · exact idleUnload_wp _

variable (errors : Bool)

def outline : Outline (machine agentName ownerName P errors) .free Local where
  disc := disc
  final _ := True
  entryLocal _ := {}
  spawnLocal := spawnLocal
  inv := Inv
  entry_wp _ call _ := entry_wp agentName ownerName P call
  spawn_wp _ _ op p _ := spawn_wp op p
  inv_start _ _ _ _ h := h.start
  inv_call _ _ _ _ _ _ _ _ hi hallow _ hact h := h.call hi hallow hact

def joined : List (Label facadeSig Call) :=
  [.start (.loadModel "model.gguf"), .start (.generateChatReply "hello")] ++ calls 0 12 ++ calls 1 8 ++
    calls 2 18 ++ calls 0 1 ++ calls 1 1

end Aigentik.SharedLoad
