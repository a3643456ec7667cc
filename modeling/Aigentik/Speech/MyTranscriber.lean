import Aigentik.Effects.StepRuns

namespace Aigentik.MyTranscriber

open Effects

/-- What the audio thread does next; `skip` to `keep` are the reads of the flag in one iteration. -/
inductive Pc
  | create
  | begin
  | write
  | first
  | head
  | skip
  | resume
  | feed
  | pause
  | keep
  | finish
  | free
  | ended
  deriving DecidableEq

/-- The calls on the stream handle, with samples in `α`. -/
inductive Call (α : Type)
  | createStream
  | startStream
  | addAudioToStream (audioData : List α) (sampleRate : ℕ)
  | stopStream
  | freeStream
  deriving DecidableEq

structure State (α : Type) where
  isRunning : Bool
  wasRunning : Bool
  interrupted : Bool
  audioData : List α
  pc : Pc
  calls : List (Call α)

/-- Calls by other threads, and one step of the audio thread, with what `consumeAudio` returns if it is called. -/
inductive Event (α : Type)
  | start
  | stop
  | interrupt
  | loop (audioData : List α)

variable {α : Type}

namespace State

variable (s : State α)

def goto (pc : Pc) : State α := { s with pc }

def call (call : Call α) : State α := { s with calls := s.calls ++ [call] }

end State

/-- `audioProcessingLoop`, one read of the flag or one call at a time. -/
def audioProcessingLoop (audioData : List α) (s : State α) : Option (State α) :=
  match s.pc with
  | .create => some ((s.call .createStream).goto .begin)
  | .begin => some ((s.call .startStream).goto .write)
  | .write => some { s with isRunning := true, pc := .first }
  | .first => some { s with wasRunning := s.isRunning, pc := .head }
  | .head => some (if s.interrupted then s.goto .finish else { s with audioData, pc := .skip })
  | .skip => some (s.goto (if !s.isRunning && !s.wasRunning then .head else .resume))
  | .resume => some ((if s.isRunning && !s.wasRunning then s.call .startStream else s).goto .feed)
  | .feed =>
    some ((if s.isRunning || s.wasRunning then s.call (.addAudioToStream s.audioData 16000) else s).goto .pause)
  | .pause => some ((if !s.isRunning && s.wasRunning then s.call .stopStream else s).goto .keep)
  | .keep => some { s with wasRunning := s.isRunning, pc := .head }
  | .finish => some ((s.call .stopStream).goto .free)
  | .free => some ((s.call .freeStream).goto .ended)
  | .ended => none

def next (s : State α) : Event α → Option (State α)
  | .start => some { s with isRunning := true }
  | .stop => some { s with isRunning := false }
  | .interrupt => some { s with interrupted := true }
  | .loop audioData => audioProcessingLoop audioData s

def initial : State α := ⟨false, false, false, [], .create, []⟩

/-- Whether the stream is started, after one more call that is in turn. -/
def turn (started : Bool) : Call α → Option Bool
  | .startStream => if started then none else some true
  | .stopStream => if started then some false else none
  | .addAudioToStream .. => if started then some true else none
  | .createStream | .freeStream => some started

/-- Starts and stops of the stream take turns, a start first, and audio is added in between only. -/
def Alternates (calls : List (Call α)) : Prop := (calls.foldlM turn false).isSome

/-- Another read of the flag is to come that must see what the one before it saw. -/
def Between (s : State α) : Prop :=
  s.pc = .first ∨ s.pc = .keep ∨ (s.wasRunning = false ∧ (s.pc = .feed ∨ s.pc = .pause))

/-- No call changes the flag between two such reads, and the thread sees its interruption only while the stream
is started. -/
def Meets (s : State α) : Event α → Prop
  | .start => Between s → s.isRunning = true
  | .stop => Between s → s.isRunning = false
  | .interrupt => True
  | .loop _ => s.pc = .head → s.interrupted = true → s.wasRunning = true

instance (s : State α) : Decidable (Between s) :=
  inferInstanceAs (Decidable (s.pc = .first ∨ s.pc = .keep ∨ (s.wasRunning = false ∧ (s.pc = .feed ∨ s.pc = .pause))))

instance (s : State α) : (e : Event α) → Decidable (Meets s e)
  | .start => inferInstanceAs (Decidable (Between s → s.isRunning = true))
  | .stop => inferInstanceAs (Decidable (Between s → s.isRunning = false))
  | .interrupt => isTrue trivial
  | .loop _ => inferInstanceAs (Decidable (s.pc = .head → s.interrupted = true → s.wasRunning = true))

instance (calls : List (Call α)) : Decidable (Alternates calls) :=
  inferInstanceAs (Decidable ((calls.foldlM turn false).isSome = true))

abbrev Run : State α → List (Event α) → State α → Prop := StepRun fun s e s' ↦ next s e = some s'

abbrev MetRun : State α → List (Event α) → State α → Prop :=
  StepRun fun s e s' ↦ Meets s e ∧ next s e = some s'

/-- What the thread knows of the stream at each of its steps. -/
def Knows (s : State α) (started : Bool) : Prop :=
  match s.pc with
  | .create | .begin | .free | .ended => started = false
  | .write | .finish => started = true
  | .first => started = true ∧ s.isRunning = true
  | .head | .skip | .resume => started = s.wasRunning
  | .feed | .pause => started = (s.wasRunning || s.isRunning)
  | .keep => started = s.isRunning

def Inv (s : State α) : Prop := ∃ started, s.calls.foldlM turn false = some started ∧ Knows s started

variable {s s' : State α} {e : Event α} {es : List (Event α)} {audioData : List α} {c : Call α}
  {started started' : Bool}

theorem turn_call (hcalls : s.calls.foldlM turn false = some started) (hturn : turn started c = some started') :
    (s.call c).calls.foldlM turn false = some started' := by
  rw [State.call, List.foldlM_append, hcalls]
  simp only [Option.bind_eq_bind, Option.bind_some, List.foldlM_cons, List.foldlM_nil, hturn, Option.pure_def]

theorem inv_initial : Inv (initial : State α) := ⟨false, rfl, rfl⟩

/-- A call that leaves the flag as it is, or comes when no second read is due, changes nothing the thread knows. -/
theorem knows_call {isRunning : Bool} (hs : Knows s started) (hmeets : Between s → s.isRunning = isRunning) :
    Knows { s with isRunning } started := by
  by_cases hbetween : Between s
  · obtain rfl := hmeets hbetween
    exact hs
  · unfold Knows at hs ⊢
    unfold Between at hbetween
    cases hpc : s.pc <;> simp_all

theorem inv_loop (hs : Inv s) (hmeets : Meets s (.loop audioData)) (hnext : audioProcessingLoop audioData s = some s') :
    Inv s' := by
  obtain ⟨started, hcalls, hknows⟩ := hs
  obtain ⟨isRunning, wasRunning, interrupted, data, pc, calls⟩ := s
  cases pc with
  | create =>
    obtain rfl : started = false := hknows
    obtain rfl := Option.some.inj hnext
    exact ⟨false, turn_call hcalls rfl, rfl⟩
  | begin =>
    obtain rfl : started = false := hknows
    obtain rfl := Option.some.inj hnext
    exact ⟨true, turn_call hcalls rfl, rfl⟩
  | write =>
    obtain rfl : started = true := hknows
    obtain rfl := Option.some.inj hnext
    exact ⟨true, hcalls, rfl, rfl⟩
  | first =>
    obtain ⟨rfl, hrunning⟩ : started = true ∧ isRunning = true := hknows
    obtain rfl := Option.some.inj hnext
    exact ⟨true, hcalls, hrunning.symm⟩
  | head =>
    obtain rfl : started = wasRunning := hknows
    obtain rfl := Option.some.inj hnext
    cases interrupted with
    | true => exact ⟨started, hcalls, hmeets rfl rfl⟩
    | false => exact ⟨started, hcalls, rfl⟩
  | skip =>
    obtain rfl : started = wasRunning := hknows
    obtain rfl := Option.some.inj hnext
    refine ⟨started, hcalls, ?_⟩
    cases isRunning <;> cases started <;> rfl
  | resume =>
    obtain rfl : started = wasRunning := hknows
    obtain rfl := Option.some.inj hnext
    cases isRunning <;> cases started
    · exact ⟨false, hcalls, rfl⟩
    · exact ⟨true, hcalls, rfl⟩
    · exact ⟨true, turn_call hcalls rfl, rfl⟩
    · exact ⟨true, hcalls, rfl⟩
  | feed =>
    obtain rfl : started = (wasRunning || isRunning) := hknows
    obtain rfl := Option.some.inj hnext
    cases isRunning <;> cases wasRunning
    · exact ⟨false, hcalls, rfl⟩
    · exact ⟨true, turn_call hcalls rfl, rfl⟩
    · exact ⟨true, turn_call hcalls rfl, rfl⟩
    · exact ⟨true, turn_call hcalls rfl, rfl⟩
  | pause =>
    obtain rfl : started = (wasRunning || isRunning) := hknows
    obtain rfl := Option.some.inj hnext
    cases isRunning <;> cases wasRunning
    · exact ⟨false, hcalls, rfl⟩
    · exact ⟨false, turn_call hcalls rfl, rfl⟩
    · exact ⟨true, hcalls, rfl⟩
    · exact ⟨true, hcalls, rfl⟩
  | keep =>
    obtain rfl : started = isRunning := hknows
    obtain rfl := Option.some.inj hnext
    exact ⟨started, hcalls, rfl⟩
  | finish =>
    obtain rfl : started = true := hknows
    obtain rfl := Option.some.inj hnext
    exact ⟨false, turn_call hcalls rfl, rfl⟩
  | free =>
    obtain rfl : started = false := hknows
    obtain rfl := Option.some.inj hnext
    exact ⟨false, turn_call hcalls rfl, rfl⟩
  | ended => cases hnext

theorem inv_step (hs : Inv s) (hstep : Meets s e ∧ next s e = some s') : Inv s' := by
  obtain ⟨hmeets, hnext⟩ := hstep
  cases e with
  | start =>
    obtain rfl := Option.some.inj hnext
    obtain ⟨started, hcalls, hknows⟩ := hs
    exact ⟨started, hcalls, knows_call hknows hmeets⟩
  | stop =>
    obtain rfl := Option.some.inj hnext
    obtain ⟨started, hcalls, hknows⟩ := hs
    exact ⟨started, hcalls, knows_call hknows hmeets⟩
  | interrupt =>
    obtain rfl := Option.some.inj hnext
    exact hs
  | loop audioData => exact inv_loop hs hmeets hnext

theorem Inv.alternates (hs : Inv s) : Alternates s.calls := by
  obtain ⟨started, hcalls, -⟩ := hs
  rw [Alternates, hcalls]
  rfl

/-- The stream is started and stopped in turn, with audio in between only, as long as no call changes the flag
between two reads that must agree and the thread is interrupted only while the stream is started. -/
theorem calls_alternate (hrun : MetRun initial es s) : Alternates s.calls :=
  (hrun.invariant (fun _ _ _ _ hs hstep ↦ inv_step hs hstep) inv_initial).alternates

/-- A stop before the loop's next look at the flag: one more chunk is added, and the stream is stopped. -/
theorem stopped_run_alternates :
    Alternates [.createStream, .startStream, .addAudioToStream [7] 16000, (.stopStream : Call ℕ)] := by
  have hrun : MetRun (initial : State ℕ)
      [.loop [], .loop [], .loop [], .loop [], .stop, .loop [7], .loop [], .loop [], .loop [], .loop [], .loop []]
      ⟨false, false, false, [7], .head, [.createStream, .startStream, .addAudioToStream [7] 16000, .stopStream]⟩ :=
    .cons ⟨by decide, rfl⟩ (.cons ⟨by decide, rfl⟩ (.cons ⟨by decide, rfl⟩ (.cons ⟨by decide, rfl⟩
      (.cons ⟨by decide, rfl⟩ (.cons ⟨by decide, rfl⟩ (.cons ⟨by decide, rfl⟩ (.cons ⟨by decide, rfl⟩
        (.cons ⟨by decide, rfl⟩ (.cons ⟨by decide, rfl⟩ (.cons ⟨by decide, rfl⟩ (.nil _)))))))))))
  exact calls_alternate hrun

def twiceStarted : List (Call ℕ) := [.createStream, .startStream, .addAudioToStream [7] 16000, .startStream]

/-- A stop between the last two reads of an iteration and a start after it: the stream is started twice. -/
theorem stream_started_twice :
    Run (initial : State ℕ) [.loop [], .loop [], .loop [], .loop [], .loop [7], .loop [], .loop [], .loop [], .loop [],
      .stop, .loop [], .start, .loop [8], .loop [], .loop []] ⟨true, false, false, [8], .feed, twiceStarted⟩ ∧
      ¬Alternates twiceStarted :=
  ⟨.of_foldlM rfl, by decide⟩

theorem not_alternates_call (hcalls : s.calls.foldlM turn false = some started) (hturn : turn started c = none) :
    ¬Alternates (s.call c).calls := by
  rw [Alternates, State.call, List.foldlM_append, hcalls]
  simp only [Option.bind_eq_bind, Option.bind_some, List.foldlM_cons, hturn, Option.bind_none, Option.isSome_none,
    Bool.false_eq_true, not_false_eq_true]

/-- Some further steps, all of them as required, lead to a call out of turn. -/
def Breaks (s : State α) : Prop := ∃ later s', MetRun s later s' ∧ ¬Alternates s'.calls

theorem Breaks.of_step (h : Breaks s') (hmeets : Meets s e) (hnext : next s e = some s') : Breaks s := by
  obtain ⟨later, s'', hrun, hcalls⟩ := h
  exact ⟨e :: later, s'', .cons ⟨hmeets, hnext⟩ hrun, hcalls⟩

theorem Breaks.of_loop (h : Breaks s') (hpc : s.pc ≠ .head) (hnext : audioProcessingLoop [] s = some s') : Breaks s :=
  h.of_step (e := .loop []) (fun heq ↦ absurd heq hpc) hnext

variable {data : List α} {calls : List (Call α)}

/-- The thread takes the started stream for stopped: the next start starts it again. -/
theorem breaks_of_started (hcalls : calls.foldlM turn false = some true) :
    Breaks ⟨false, false, false, data, .head, calls⟩ := by
  have hresume : Breaks (⟨true, false, false, [], .resume, calls⟩ : State α) :=
    ⟨[.loop []], _, .cons ⟨fun heq ↦ Pc.noConfusion heq, rfl⟩ (.nil _), not_alternates_call hcalls rfl⟩
  have hskip : Breaks (⟨true, false, false, [], .skip, calls⟩ : State α) := hresume.of_loop Pc.noConfusion rfl
  have hhead : Breaks (⟨true, false, false, data, .head, calls⟩ : State α) :=
    hskip.of_step (e := .loop []) (fun _ h ↦ Bool.noConfusion h) rfl
  exact hhead.of_step (e := .start) (by simp [Meets, Between]) rfl

/-- The thread takes the stopped stream for started: it adds audio to it. -/
theorem breaks_of_stopped (hcalls : calls.foldlM turn false = some false) :
    Breaks ⟨true, true, false, data, .head, calls⟩ := by
  have hfeed : Breaks (⟨true, true, false, [], .feed, calls⟩ : State α) :=
    ⟨[.loop []], _, .cons ⟨fun heq ↦ Pc.noConfusion heq, rfl⟩ (.nil _), not_alternates_call hcalls rfl⟩
  have hresume : Breaks (⟨true, true, false, [], .resume, calls⟩ : State α) := hfeed.of_loop Pc.noConfusion rfl
  have hskip : Breaks (⟨true, true, false, [], .skip, calls⟩ : State α) := hresume.of_loop Pc.noConfusion rfl
  exact hskip.of_step (e := .loop []) (fun _ _ ↦ rfl) rfl

theorem unmet_start_breaks (hs : Inv s) (hinterrupted : s.interrupted = false) (hunmet : ¬Meets s .start) :
    Breaks { s with isRunning := true } := by
  obtain ⟨hbetween, hrunning⟩ := Classical.not_imp.mp hunmet
  obtain ⟨started, hcalls, hknows⟩ := hs
  obtain ⟨isRunning, wasRunning, interrupted, data, pc, calls⟩ := s
  obtain rfl : isRunning = false := Bool.eq_false_iff.mpr hrunning
  obtain rfl : interrupted = false := hinterrupted
  obtain rfl | rfl | ⟨rfl, rfl | rfl⟩ := hbetween
  · exact Bool.noConfusion hknows.2
  · obtain rfl : started = false := hknows
    exact (breaks_of_stopped hcalls).of_loop Pc.noConfusion rfl
  · obtain rfl : started = false := hknows
    exact ⟨[.loop []], _, .cons ⟨fun heq ↦ Pc.noConfusion heq, rfl⟩ (.nil _), not_alternates_call hcalls rfl⟩
  · obtain rfl : started = false := hknows
    have hkeep : Breaks (⟨true, false, false, data, .keep, calls⟩ : State α) :=
      (breaks_of_stopped hcalls).of_loop Pc.noConfusion rfl
    exact hkeep.of_loop Pc.noConfusion rfl

theorem unmet_stop_breaks (hs : Inv s) (hinterrupted : s.interrupted = false) (hunmet : ¬Meets s .stop) :
    Breaks { s with isRunning := false } := by
  obtain ⟨hbetween, hrunning⟩ := Classical.not_imp.mp hunmet
  obtain ⟨started, hcalls, hknows⟩ := hs
  obtain ⟨isRunning, wasRunning, interrupted, data, pc, calls⟩ := s
  obtain rfl : isRunning = true := (Bool.not_eq_false isRunning).mp hrunning
  obtain rfl : interrupted = false := hinterrupted
  have hkeep (h : calls.foldlM turn false = some true) (wasRunning : Bool) :
      Breaks (⟨false, wasRunning, false, data, .keep, calls⟩ : State α) :=
    (breaks_of_started h).of_loop Pc.noConfusion rfl
  obtain rfl | rfl | ⟨rfl, rfl | rfl⟩ := hbetween
  · obtain rfl : started = true := hknows.1
    exact (breaks_of_started hcalls).of_loop Pc.noConfusion rfl
  · obtain rfl : started = true := hknows
    exact hkeep hcalls wasRunning
  · obtain rfl : started = true := hknows
    have hpause : Breaks (⟨false, false, false, data, .pause, calls⟩ : State α) :=
      (hkeep hcalls false).of_loop Pc.noConfusion rfl
    exact hpause.of_loop Pc.noConfusion rfl
  · obtain rfl : started = true := hknows
    exact (hkeep hcalls false).of_loop Pc.noConfusion rfl

/-- The first call that changes the flag between two such reads is enough: a call out of turn can follow, with
no further call of that kind. -/
theorem unmet_call_breaks (hrun : MetRun initial es s) (hinterrupted : s.interrupted = false) (hunmet : ¬Meets s e)
    (hnext : next s e = some s') : Breaks s' := by
  have hs := hrun.invariant (fun _ _ _ _ hs hstep ↦ inv_step hs hstep) inv_initial
  cases e with
  | start =>
    obtain rfl := Option.some.inj hnext
    exact unmet_start_breaks hs hinterrupted hunmet
  | stop =>
    obtain rfl := Option.some.inj hnext
    exact unmet_stop_breaks hs hinterrupted hunmet
  | interrupt => exact absurd trivial hunmet
  | loop audioData => exact absurd (fun _ h ↦ absurd h (Bool.eq_false_iff.mp hinterrupted)) hunmet

end Aigentik.MyTranscriber
