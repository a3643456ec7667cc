import Aigentik.Auth.AdminAuthManager
import Mathlib.Data.List.Chain

namespace Aigentik.SessionWindow

open Strings Effects AdminAuthManager

inductive Request
  | authenticate (credentials : AdminCredentials) (channelKey : Str)
  | hasActiveSession (channelKey : Str)
  | clearSession (channelKey : Str)
  | clearAllSessions
  deriving DecidableEq

/-- A request, or new settings. -/
inductive Step
  | request (r : Request)
  | saved (ownerName adminPasswordHash : Str)
  deriving DecidableEq

structure Event where
  time : ℤ
  request : Request
  answer : Option Bool
  deriving DecidableEq

structure History where
  state : State
  log : List Event

def initial (ownerName adminPasswordHash : Str) : History :=
  ⟨⟨ownerName, adminPasswordHash, fun _ ↦ none, fun _ ↦ none⟩, []⟩

variable (P : Platform)

def answered {α : Type} (f : α → Option Bool) : Except Throwable α × State → Option Bool × State
  | (.ok a, s) => (f a, s)
  | (.error _, s) => (none, s)

/-- The answer is `none` for a call that returns nothing. -/
def serve (now : ℤ) (s : State) : Request → Option Bool × State
  | .authenticate credentials channelKey =>
    answered some ((authenticate P credentials channelKey).exec (State.semantics now) s)
  | .hasActiveSession channelKey => answered some ((hasActiveSession channelKey).exec (State.semantics now) s)
  | .clearSession channelKey => answered (fun _ ↦ none) ((clearSession channelKey).exec (State.semantics now) s)
  | .clearAllSessions => answered (fun _ ↦ none) (clearAllSessions.exec (State.semantics now) s)

def advance (h : History) : ℤ × Step → History
  | (now, .request r) =>
    let (answer, state) := serve P now h.state r
    ⟨state, h.log ++ [⟨now, r, answer⟩]⟩
  | (_, .saved ownerName adminPasswordHash) => ⟨{ h.state with ownerName, adminPasswordHash }, h.log⟩

def run (h : History) (steps : List (ℤ × Step)) : History := steps.foldl (advance P) h

namespace Event

variable (key : Str) (e : Event)

def authenticates : Bool :=
  match e.request with
  | .authenticate _ channelKey => channelKey = key && e.answer = some true
  | _ => false

def checks : Bool := e.request = .hasActiveSession key

def clears : Bool := e.request = .clearSession key || e.request = .clearAllSessions

end Event

/-- The times of the last successful authentication of a channel and of the checks after it,
where nothing has cleared its session since. -/
def Since (key : Str) (log : List Event) (times : List ℤ) : Prop :=
  ∃ before e after, log = before ++ e :: after ∧ e.authenticates key = true ∧
    (∀ x ∈ after, x.authenticates key = false ∧ x.clears key = false) ∧
    times = e.time :: (after.filter (Event.checks key)).map Event.time

/-- No two consecutive times are thirty minutes or more apart. -/
def Dense (times : List ℤ) : Prop := times.IsChain fun a b ↦ b - a < SESSION_TIMEOUT_MS

def InWindow (key : Str) (log : List Event) (now : ℤ) : Prop :=
  ∃ times, Since key log times ∧ Dense (times ++ [now])

/-- The steps that may change the answer for a channel. -/
def concerns (key : Str) : ℤ × Step → Bool
  | (_, .request (.authenticate _ channelKey)) | (_, .request (.hasActiveSession channelKey))
  | (_, .request (.clearSession channelKey)) => channelKey = key
  | (_, .request .clearAllSessions) | (_, .saved ..) => true

/-! The requests -/

variable {P} {key : Str} {now : ℤ} {s : State}

theorem serve_authenticate (credentials : AdminCredentials) (channelKey : Str) :
    serve P now s (.authenticate credentials channelKey) =
      if credentialsMatch P credentials s.ownerName s.adminPasswordHash then
        (some true, { s with activeSessions := Function.update s.activeSessions channelKey (some now) })
      else (some false, s) := by
  change answered some _ = _
  rw [exec_authenticate]
  split <;> rfl

theorem serve_hasActiveSession_none {channelKey : Str} (h : s.activeSessions channelKey = none) :
    serve P now s (.hasActiveSession channelKey) = (some false, s) :=
  congrArg (answered some) (exec_hasActiveSession_none h now)

theorem serve_hasActiveSession_some {channelKey : Str} {lastAuth : ℤ}
    (h : s.activeSessions channelKey = some lastAuth) :
    serve P now s (.hasActiveSession channelKey) =
      if now - lastAuth < SESSION_TIMEOUT_MS then
        (some true, { s with activeSessions := Function.update s.activeSessions channelKey (some now) })
      else (some false, { s with activeSessions := Function.update s.activeSessions channelKey none }) := by
  change answered some _ = _
  rw [exec_hasActiveSession_some h]
  split <;> rfl

theorem clearSession_sessions (channelKey : Str) : (serve P now s (.clearSession channelKey)).2.activeSessions =
    Function.update s.activeSessions channelKey none := rfl

/-! What an event adds to the history of a channel -/

variable {log : List Event} {times : List ℤ} {e : Event}

theorem snoc_eq {before after : List Event} {x : Event} (h : log ++ [x] = before ++ e :: after) :
    (e = x ∧ after = []) ∨ ∃ after', after = after' ++ [x] ∧ log = before ++ e :: after' := by
  rcases List.eq_nil_or_concat' after with rfl | ⟨after', y, rfl⟩
  · obtain ⟨-, hx⟩ := List.append_inj' h rfl
    exact .inl ⟨(List.singleton_inj.mp hx).symm, rfl⟩
  · rw [← List.cons_append, ← List.append_assoc] at h
    obtain ⟨hlog, hx⟩ := List.append_inj' h rfl
    exact .inr ⟨after', by rw [List.singleton_inj.mp hx], hlog⟩

theorem since_snoc : Since key (log ++ [e]) times ↔
    (e.authenticates key = true ∧ times = [e.time]) ∨
      (e.authenticates key = false ∧ e.clears key = false ∧
        ∃ earlier, Since key log earlier ∧ times = earlier ++ if e.checks key then [e.time] else []) := by
  constructor
  · intro h'
    obtain ⟨before, x, after, hlog, hx, hafter, rfl⟩ := h'
    rcases snoc_eq hlog with ⟨rfl, rfl⟩ | ⟨after', rfl, rfl⟩
    · exact .inl ⟨hx, rfl⟩
    · obtain ⟨hauth, hclear⟩ := hafter e (by simp)
      have hrest : ∀ y ∈ after', y.authenticates key = false ∧ y.clears key = false :=
        fun y hy ↦ hafter y (by simp [hy])
      refine .inr ⟨hauth, hclear, _, ⟨before, x, after', rfl, hx, hrest, rfl⟩, ?_⟩
      cases h : e.checks key <;> simp [List.filter_append, h]
  · intro h'
    rcases h' with ⟨hauth, rfl⟩ | ⟨hauth, hclear, _, ⟨before, x, after, rfl, hx, hafter, rfl⟩, rfl⟩
    · exact ⟨log, e, [], rfl, hauth, by simp, rfl⟩
    · refine ⟨before, x, after ++ [e], by simp, hx, fun y hy ↦ ?_, ?_⟩
      · rcases List.mem_append.mp hy with hy | hy
        · exact hafter y hy
        · obtain rfl := List.mem_singleton.mp hy
          exact ⟨hauth, hclear⟩
      · cases h : e.checks key <;> simp [List.filter_append, h]

theorem dense_snoc : Dense (times ++ [now]) ↔
    Dense times ∧ ∀ x, times.getLast? = some x → now - x < SESSION_TIMEOUT_MS := by
  unfold Dense
  rw [List.isChain_append]
  simp

/-- The window is open, and was last refreshed at the time `x`. -/
def Refreshed (key : Str) (log : List Event) (x : ℤ) : Prop :=
  ∃ times, Since key log times ∧ Dense times ∧ times.getLast? = some x

variable {x : ℤ}

theorem refreshed_authenticates (h : e.authenticates key = true) : Refreshed key (log ++ [e]) x ↔ x = e.time := by
  constructor
  · intro h'
    obtain ⟨times, hsince, -, hlast⟩ := h'
    rcases since_snoc.mp hsince with ⟨-, rfl⟩ | ⟨hauth, -⟩
    · exact (Option.some.inj hlast).symm
    · rw [h] at hauth
      cases hauth
  · intro heq
    subst heq
    exact ⟨_, since_snoc.mpr (.inl ⟨h, rfl⟩), .singleton _, rfl⟩

theorem not_refreshed_clears (h : e.authenticates key = false) (hclear : e.clears key = true) :
    ¬Refreshed key (log ++ [e]) x := by
  intro h'
  obtain ⟨times, hsince, -⟩ := h'
  rcases since_snoc.mp hsince with ⟨hauth, -⟩ | ⟨-, hclear', -⟩
  · rw [h] at hauth
    cases hauth
  · rw [hclear] at hclear'
    cases hclear'

theorem since_checks (h : e.authenticates key = false) (hclear : e.clears key = false)
    (hcheck : e.checks key = true) :
    Since key (log ++ [e]) times ↔ ∃ earlier, Since key log earlier ∧ times = earlier ++ [e.time] := by
  simp [since_snoc, h, hclear, hcheck]

theorem refreshed_checks (h : e.authenticates key = false) (hclear : e.clears key = false)
    (hcheck : e.checks key = true) : Refreshed key (log ++ [e]) x ↔ x = e.time ∧ InWindow key log e.time := by
  constructor
  · intro h'
    obtain ⟨times, hsince, hdense, hlast⟩ := h'
    obtain ⟨earlier, hearlier, rfl⟩ := (since_checks h hclear hcheck).mp hsince
    have hx : x = e.time := by simpa using hlast.symm
    exact ⟨hx, earlier, hearlier, hdense⟩
  · intro h'
    obtain ⟨rfl, earlier, hearlier, hdense⟩ := h'
    exact ⟨_, (since_checks h hclear hcheck).mpr ⟨earlier, hearlier, rfl⟩, hdense, by simp⟩

theorem refreshed_other (h : e.authenticates key = false) (hclear : e.clears key = false)
    (hcheck : e.checks key = false) : Refreshed key (log ++ [e]) x ↔ Refreshed key log x := by
  simp [Refreshed, since_snoc, h, hclear, hcheck]

theorem Since.last (h : Since key log times) : ∃ last, times.getLast? = some last := by
  obtain ⟨before, a, after, -, -, -, rfl⟩ := h
  exact ⟨_, List.getLast?_eq_some_getLast (List.cons_ne_nil _ _)⟩

theorem inWindow_iff : InWindow key log now ↔ ∃ last, Refreshed key log last ∧ now - last < SESSION_TIMEOUT_MS := by
  constructor
  · intro h
    obtain ⟨times, hsince, hdense⟩ := h
    obtain ⟨hdense, hgap⟩ := dense_snoc.mp hdense
    obtain ⟨last, hlast⟩ := hsince.last
    exact ⟨last, ⟨times, hsince, hdense, hlast⟩, hgap last hlast⟩
  · intro h
    obtain ⟨last, ⟨times, hsince, hdense, hlast⟩, hgap⟩ := h
    refine ⟨times, hsince, dense_snoc.mpr ⟨hdense, fun x hx ↦ ?_⟩⟩
    obtain rfl := Option.some.inj (hlast.symm.trans hx)
    exact hgap

/-! The stored time -/

/-- A channel has a session exactly when its window is open, stored with the time of the last
refresh; a session that has run out may still be stored. -/
def Tracks (key : Str) (s : State) (log : List Event) : Prop :=
  ∀ x, s.activeSessions key = some x ↔ Refreshed key log x

theorem serve_settings (r : Request) : (serve P now s r).2.ownerName = s.ownerName ∧
    (serve P now s r).2.adminPasswordHash = s.adminPasswordHash := by
  cases r with
  | authenticate credentials channelKey =>
    rw [serve_authenticate]
    split <;> exact ⟨rfl, rfl⟩
  | hasActiveSession channelKey =>
    cases h : s.activeSessions channelKey with
    | none =>
      rw [serve_hasActiveSession_none h]
      exact ⟨rfl, rfl⟩
    | some lastAuth =>
      rw [serve_hasActiveSession_some h]
      split <;> exact ⟨rfl, rfl⟩
  | clearSession channelKey => exact ⟨rfl, rfl⟩
  | clearAllSessions => exact ⟨rfl, rfl⟩

theorem serve_other {r : Request} (h : concerns key (now, .request r) = false) :
    (serve P now s r).2.activeSessions key = s.activeSessions key := by
  cases r with
  | authenticate credentials channelKey =>
    have hne : key ≠ channelKey := fun heq ↦ by simp [concerns, heq] at h
    rw [serve_authenticate]
    split
    · exact Function.update_of_ne hne _ _
    · rfl
  | hasActiveSession channelKey =>
    have hne : key ≠ channelKey := fun heq ↦ by simp [concerns, heq] at h
    cases hsession : s.activeSessions channelKey with
    | none => rw [serve_hasActiveSession_none hsession]
    | some lastAuth =>
      rw [serve_hasActiveSession_some hsession]
      split <;> exact Function.update_of_ne hne _ _
  | clearSession channelKey =>
    have hne : key ≠ channelKey := fun heq ↦ by simp [concerns, heq] at h
    exact Function.update_of_ne hne _ _
  | clearAllSessions => cases h

variable {h : History}

theorem Tracks.unchanged (ht : Tracks key s log) {s' : State} (hauth : e.authenticates key = false)
    (hclear : e.clears key = false) (hcheck : e.checks key = false)
    (hsame : s'.activeSessions key = s.activeSessions key) : Tracks key s' (log ++ [e]) := by
  intro x
  rw [hsame, refreshed_other hauth hclear hcheck]
  exact ht x

theorem Tracks.authenticate (ht : Tracks key s log) (credentials : AdminCredentials) :
    Tracks key (serve P now s (.authenticate credentials key)).2
      (log ++ [⟨now, .authenticate credentials key, (serve P now s (.authenticate credentials key)).1⟩]) := by
  rw [serve_authenticate]
  by_cases hmatch : credentialsMatch P credentials s.ownerName s.adminPasswordHash = true
  · rw [if_pos hmatch]
    intro x
    rw [refreshed_authenticates (by simp [Event.authenticates])]
    simp only [Function.update_self, Option.some.injEq]
    exact eq_comm
  · rw [if_neg hmatch]
    exact ht.unchanged (by simp [Event.authenticates]) (by simp [Event.clears]) (by simp [Event.checks]) rfl

theorem Tracks.inWindow (ht : Tracks key s log) : InWindow key log now ↔
    ∃ last, s.activeSessions key = some last ∧ now - last < SESSION_TIMEOUT_MS := by
  rw [inWindow_iff]
  exact exists_congr fun last ↦ and_congr_left' (ht last).symm

theorem Tracks.check (ht : Tracks key s log) :
    Tracks key (serve P now s (.hasActiveSession key)).2
      (log ++ [⟨now, .hasActiveSession key, (serve P now s (.hasActiveSession key)).1⟩]) := by
  intro x
  rw [refreshed_checks rfl (by simp [Event.clears]) (by simp [Event.checks]), ht.inWindow]
  cases hsession : s.activeSessions key with
  | none =>
    rw [serve_hasActiveSession_none hsession]
    simp [hsession]
  | some lastAuth =>
    rw [serve_hasActiveSession_some hsession]
    by_cases hrecent : now - lastAuth < SESSION_TIMEOUT_MS
    · rw [if_pos hrecent]
      simp [hrecent, eq_comm]
    · rw [if_neg hrecent]
      simp [hrecent]

theorem Tracks.cleared {s' : State} (hauth : e.authenticates key = false) (hclear : e.clears key = true)
    (hnone : s'.activeSessions key = none) : Tracks key s' (log ++ [e]) := by
  intro x
  rw [hnone]
  exact ⟨fun h ↦ (by cases h), fun h ↦ (not_refreshed_clears hauth hclear h).elim⟩

theorem Tracks.advance (ht : Tracks key h.state h.log) (step : ℤ × Step) :
    Tracks key (SessionWindow.advance P h step).state (SessionWindow.advance P h step).log := by
  obtain ⟨now, step⟩ := step
  cases step with
  | saved ownerName adminPasswordHash => exact ht
  | request r =>
    by_cases hconcerns : concerns key (now, .request r) = true
    · cases r with
      | authenticate credentials channelKey =>
        obtain rfl : channelKey = key := by simpa [concerns] using hconcerns
        exact ht.authenticate credentials
      | hasActiveSession channelKey =>
        obtain rfl : channelKey = key := by simpa [concerns] using hconcerns
        exact ht.check (P := P)
      | clearSession channelKey =>
        obtain rfl : channelKey = key := by simpa [concerns] using hconcerns
        exact .cleared rfl (by simp [Event.clears]) (Function.update_self ..)
      | clearAllSessions => exact .cleared rfl (by simp [Event.clears]) rfl
    · have hother : concerns key (now, .request r) = false := by simpa using hconcerns
      refine ht.unchanged ?_ ?_ ?_ (serve_other hother) <;>
        cases r <;> simp_all [concerns, Event.authenticates, Event.clears, Event.checks]

theorem tracks_run (ht : Tracks key h.state h.log) (steps : List (ℤ × Step)) :
    Tracks key (run P h steps).state (run P h steps).log := by
  induction steps generalizing h with
  | nil => exact ht
  | cons step steps ih => exact ih (ht.advance step)

theorem tracks_initial (ownerName adminPasswordHash : Str) :
    Tracks key (initial ownerName adminPasswordHash).state (initial ownerName adminPasswordHash).log := by
  refine fun x ↦ ⟨fun h ↦ (by cases h), ?_⟩
  intro h'
  obtain ⟨times, ⟨before, e, after, hlog, -⟩, -⟩ := h'
  simp [initial] at hlog

/-! Calls for other keys -/

/-- Two states that answer alike for a channel. -/
structure Alike (key : Str) (s s' : State) : Prop where
  ownerName : s.ownerName = s'.ownerName
  adminPasswordHash : s.adminPasswordHash = s'.adminPasswordHash
  session : s.activeSessions key = s'.activeSessions key

theorem Alike.other {s' : State} (ha : Alike key s s') {r : Request}
    (hother : concerns key (now, .request r) = false) :
    Alike key (serve P now s r).2 s' :=
  ⟨(serve_settings r).1.trans ha.ownerName, (serve_settings r).2.trans ha.adminPasswordHash,
    (serve_other hother).trans ha.session⟩

theorem Alike.serve {s' : State} (ha : Alike key s s') {r : Request}
    (hconcerns : concerns key (now, .request r) = true) :
    Alike key (serve P now s r).2 (SessionWindow.serve P now s' r).2 := by
  refine ⟨?_, ?_, ?_⟩
  · rw [(serve_settings r).1, (serve_settings r).1, ha.ownerName]
  · rw [(serve_settings r).2, (serve_settings r).2, ha.adminPasswordHash]
  · cases r with
    | authenticate credentials channelKey =>
      obtain rfl : channelKey = key := by simpa [concerns] using hconcerns
      rw [serve_authenticate, serve_authenticate, ha.ownerName, ha.adminPasswordHash]
      split
      · simp only [Function.update_self]
      · exact ha.session
    | hasActiveSession channelKey =>
      obtain rfl : channelKey = key := by simpa [concerns] using hconcerns
      cases hsession : s'.activeSessions channelKey with
      | none =>
        rw [serve_hasActiveSession_none hsession, serve_hasActiveSession_none (ha.session.trans hsession)]
        exact ha.session
      | some lastAuth =>
        rw [serve_hasActiveSession_some hsession, serve_hasActiveSession_some (ha.session.trans hsession)]
        split <;> simp only [Function.update_self]
    | clearSession channelKey =>
      obtain rfl : channelKey = key := by simpa [concerns] using hconcerns
      rw [clearSession_sessions, clearSession_sessions, Function.update_self, Function.update_self]
    | clearAllSessions => rfl

theorem alike_run {g : History} (ha : Alike key h.state g.state) (steps : List (ℤ × Step)) :
    Alike key (run P h steps).state (run P g (steps.filter (concerns key))).state := by
  induction steps generalizing h g with
  | nil => exact ha
  | cons step steps ih =>
    obtain ⟨now, step⟩ := step
    cases hconcerns : concerns key (now, step) with
    | false =>
      rw [List.filter_cons_of_neg (by simp [hconcerns])]
      cases step with
      | request r => exact ih (h := advance P h (now, .request r)) (ha.other hconcerns)
      | saved ownerName adminPasswordHash => cases hconcerns
    | true =>
      rw [List.filter_cons_of_pos hconcerns]
      cases step with
      | request r => exact ih (h := advance P h _) (g := advance P g _) (ha.serve hconcerns)
      | saved ownerName adminPasswordHash =>
        exact ih (h := advance P h _) (g := advance P g _) ⟨rfl, rfl, ha.session⟩

/-! The window -/

theorem hasActiveSession_answer : ((hasActiveSession key).exec (State.semantics now) s).1 =
    .ok ((s.activeSessions key).any fun last ↦ now - last < SESSION_TIMEOUT_MS) := by
  cases hsession : s.activeSessions key with
  | none => rw [exec_hasActiveSession_none hsession, Option.any_none]
  | some lastAuth =>
    rw [exec_hasActiveSession_some hsession, Option.any_some]
    split
    · rw [decide_eq_true (by assumption)]
    · rw [decide_eq_false (by assumption)]

/-- After every run, whatever the clock says at its steps: a channel has a session exactly when the
window of its last successful authentication is still open, and the calls for other channels do not
matter. -/
theorem session_window (P : Platform) (ownerName adminPasswordHash : Str) (steps : List (ℤ × Step)) (key : Str)
    (now : ℤ) :
    (((hasActiveSession key).exec (State.semantics now) (run P (initial ownerName adminPasswordHash) steps).state).1 =
        .ok true ↔ InWindow key (run P (initial ownerName adminPasswordHash) steps).log now) ∧
      ((hasActiveSession key).exec (State.semantics now)
          (run P (initial ownerName adminPasswordHash) steps).state).1 =
        ((hasActiveSession key).exec (State.semantics now)
          (run P (initial ownerName adminPasswordHash) (steps.filter (concerns key))).state).1 := by
  constructor
  · rw [hasActiveSession_answer, (tracks_run (tracks_initial ownerName adminPasswordHash) steps).inWindow,
      Except.ok.injEq, Option.any_eq_true]
    simp only [decide_eq_true_eq]
  · have halike : Alike key (initial ownerName adminPasswordHash).state (initial ownerName adminPasswordHash).state :=
      ⟨rfl, rfl, rfl⟩
    rw [hasActiveSession_answer, hasActiveSession_answer, (alike_run halike steps).session]

end Aigentik.SessionWindow
