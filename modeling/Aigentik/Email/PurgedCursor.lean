import Aigentik.Email.GmailNotifications

namespace Aigentik.PurgedCursor

open Strings Effects GmailHistoryClient EmailMonitor GmailNotifications

abbrev World := (op : MailOp) → mailSig.Resp op

/-- The persisted id, its cached copy, and the calls made so far. -/
structure Cursor where
  persisted : Option Str
  cached : Option Str
  calls : List MailOp

def Cursor.answer (W : World) (c : Cursor) : (op : MailOp) → mailSig.Resp op × Cursor
  | .prefsGet => (c.persisted, c)
  | .prefsPut historyId => ((), { c with persisted := some historyId })
  | .cachedGet => (c.cached, c)
  | .cachedPut historyId => ((), { c with cached := historyId })
  | op => (W op, c)

def semantics (W : World) (op : MailOp) (c : Cursor) : mailSig.Resp op × Cursor :=
  { c with calls := c.calls ++ [op] }.answer W op

/-- With the token in use, the id `s` has been purged, and `n` is the present one. -/
structure Purged (W : World) (token s n : Str) : Prop where
  signedIn : W .getFreshToken = .ok (some token)
  expired : W (.historyList token s) = .code 404
  profile : W (.profile token) = .ok (some n)

variable (P : Platform)

/-- Notifications one after the other, each with the answers of its own time. -/
def notifications (worlds : List World) (c : Cursor) : Cursor :=
  worlds.foldl (fun c W ↦ ((fetch P).exec (semantics W) c).2) c

variable {P} {W : World} {token s n : Str} {c : Cursor}

/-- The calls that neither fetch nor hand over mail. -/
def WithoutMail : MailOp → Prop
  | .getFreshToken | .historyList .. | .prefsGet | .cachedGet | .cachedPut _ => True
  | _ => False

theorem exec_loadHistoryId : loadHistoryId.exec (semantics W) c =
    (.ok c.persisted, { c with
      cached := c.persisted
      calls := c.calls ++ [.prefsGet, .cachedPut c.persisted, .cachedGet] }) := by
  unfold loadHistoryId
  simp only [Prog.call_bind, Prog.ret_bind, Prog.exec_call]
  simp [semantics, Cursor.answer]

/-- The stored id is loaded again, and keeps the new one from being fetched. -/
theorem exec_primeHistoryId (hc : c.persisted = some s) : primeHistoryId.exec (semantics W) c =
    (.ok .alreadyStored, { c with
      cached := some s
      calls := c.calls ++ [.prefsGet, .cachedPut (some s), .cachedGet, .cachedGet] }) := by
  unfold primeHistoryId
  rw [Prog.exec_bind_ok exec_loadHistoryId]
  simp [semantics, Cursor.answer, hc]

theorem exec_getNewInboxMessageIds (hW : Purged W token s n) :
    (getNewInboxMessageIds s).exec (semantics W) c =
      (.ok ([], none), { c with calls := c.calls ++ [.getFreshToken, .historyList token s] }) := by
  unfold getNewInboxMessageIds
  simp [mailAttempt, Prog.ofExcept, semantics, Cursor.answer, hW.signedIn, hW.expired]

theorem exec_processFromHistory (hW : Purged W token s n) (hc : c.persisted = some s) :
    (processFromHistory P s).exec (semantics W) c =
      (.ok (), { c with
        cached := some s
        calls := c.calls ++ [.getFreshToken, .historyList token s] ++
          [.prefsGet, .cachedPut (some s), .cachedGet, .cachedGet] }) := by
  unfold processFromHistory
  rw [Prog.exec_bind_ok (exec_getNewInboxMessageIds hW)]
  simp only [and_self, if_true]
  refine (Prog.exec_bind_ok (exec_primeHistoryId ?_)).trans rfl
  exact hc

theorem exec_fetch (hW : Purged W token s n) (hc : c.persisted = some s) :
    (fetch P).exec (semantics W) c = (.ok (), { c with
      cached := some s
      calls := c.calls ++ [.prefsGet, .cachedPut (some s), .cachedGet] ++ [.getFreshToken, .historyList token s] ++
        [.prefsGet, .cachedPut (some s), .cachedGet, .cachedGet] }) := by
  unfold fetch
  rw [Prog.exec_bind_ok exec_loadHistoryId]
  simp only [hc]
  rw [exec_processFromHistory hW rfl]

/-- The id stays, and no mail is looked at, between two states. -/
def Stuck (s : Str) (c c' : Cursor) : Prop :=
  c'.persisted = some s ∧ ∃ later, c'.calls = c.calls ++ later ∧ ∀ op ∈ later, WithoutMail op

theorem fetch_stuck (hW : Purged W token s n) (hc : c.persisted = some s) :
    Stuck s c ((fetch P).exec (semantics W) c).2 := by
  rw [exec_fetch hW hc]
  refine ⟨hc, [.prefsGet, .cachedPut (some s), .cachedGet, .getFreshToken, .historyList token s, .prefsGet,
    .cachedPut (some s), .cachedGet, .cachedGet], by simp, fun op hop ↦ ?_⟩
  simp only [List.mem_cons, List.not_mem_nil, or_false] at hop
  rcases hop with rfl | rfl | rfl | rfl | rfl | rfl | rfl | rfl | rfl <;> trivial

/-- So it is in every run of notifications that find the id purged. -/
theorem notifications_stuck {worlds : List World} (hW : ∀ W ∈ worlds, ∃ token n, Purged W token s n)
    (hc : c.persisted = some s) : Stuck s c (notifications P worlds c) := by
  induction worlds generalizing c with
  | nil => exact ⟨hc, [], (List.append_nil _).symm, by simp⟩
  | cons W worlds ih =>
    obtain ⟨token, n, hpurged⟩ := hW W List.mem_cons_self
    obtain ⟨hstep, first, hfirst, hmail⟩ := fetch_stuck (P := P) hpurged hc
    obtain ⟨hlast, later, hlater, hmail'⟩ := ih (fun W hW' ↦ hW W (List.mem_cons_of_mem _ hW')) hstep
    refine ⟨hlast, first ++ later, hlater.trans (by rw [hfirst, List.append_assoc]), fun op hop ↦ ?_⟩
    exact (List.mem_append.mp hop).elim (hmail op) (hmail' op)

/-- Re-priming keeps a stored id, so the present one replaces it only if it is the same. -/
theorem repriming_replaces_iff (P : Platform) (hW : Purged W token s n) (hc : c.persisted = some s) :
    ((processFromHistory P s).exec (semantics W) c).2.persisted = some n ↔ n = s := by
  rw [exec_processFromHistory hW hc]
  exact ⟨fun h ↦ Option.some.inj (h.symm.trans hc), fun h ↦ h ▸ hc⟩

/-- The answers of a mailbox whose present id is `n`, and that has purged the others. -/
def purging (n : Str) : World
  | .getFreshToken => (.ok (some "token".toList) : Except Throwable (Option Str))
  | .historyList .. => (HttpAnswer.code 404 : HttpAnswer HistoryPage)
  | .profile _ => (HttpAnswer.ok (some n) : HttpAnswer (Option Str))
  | op => quietMail op

theorem purging_purged (s n : Str) : Purged (purging n) "token".toList s n := ⟨rfl, rfl, rfl⟩

/-- The service has just started, with a stored id. -/
def stored (s : Str) : Cursor := ⟨some s, none, []⟩

theorem same_id_replaced : ((processFromHistory asciiPlatform "5".toList).exec (semantics (purging "5".toList))
    (stored "5".toList)).2.persisted = some "5".toList :=
  (repriming_replaces_iff asciiPlatform (purging_purged "5".toList "5".toList) rfl).mpr rfl

/-- The id 5 has been purged and the present one is 9: it never gets stored, and no later
notification looks at any mail. -/
theorem purged_id_stays :
    ((processFromHistory asciiPlatform "5".toList).exec (semantics (purging "9".toList))
      (stored "5".toList)).2.persisted ≠ some "9".toList ∧
    ∀ k, Stuck "5".toList (stored "5".toList)
      (notifications asciiPlatform (List.replicate k (purging "9".toList)) (stored "5".toList)) := by
  constructor
  · rw [exec_processFromHistory (purging_purged "5".toList "9".toList) rfl]
    decide
  · intro k
    refine notifications_stuck (fun W hW ↦ ?_) rfl
    rw [List.eq_of_mem_replicate hW]
    exact ⟨_, _, purging_purged "5".toList "9".toList⟩

end Aigentik.PurgedCursor
