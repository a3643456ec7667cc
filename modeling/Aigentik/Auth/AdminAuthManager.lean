import Aigentik.Platform

namespace Aigentik.AdminAuthManager

open Strings Effects

def SESSION_TIMEOUT_MS : ℤ := 30 * 60 * 1000

def DESTRUCTIVE_KEYWORDS : List Str :=
  ["delete", "remove", "erase", "wipe", "clear", "spam", "unsubscribe", "bulk", "all emails",
    "all contacts", "send to all", "mass text", "broadcast"].map String.toList

structure AdminCredentials where
  username : Str
  password : Str
  command : Str
  deriving DecidableEq

variable (P : Platform)

def headed (head1 head2 line : Str) : Bool :=
  startsWith (P.lowercase line) head1 || startsWith (P.lowercase line) head2

def parseAdminMessage (body : Str) : Option AdminCredentials :=
  let lines := (lines (trim body)).map trim
  match lines.find? (headed P "admin:" "admin :"),
    lines.find? (headed P "password:" "password :") with
  | some adminLine, some passwordLine =>
    let username := trim (substringAfter adminLine ":")
    let password := trim (substringAfter passwordLine ":")
    let commandStartIdx := max (lines.idxOf adminLine) (lines.idxOf passwordLine) + 1
    let command := trim (joinToString "\n" (lines.drop commandStartIdx))
    if isBlank username || isBlank password then none
    else some ⟨username, password, command⟩
  | _, _ => none

def isDestructiveCommand (command : Str) : Bool :=
  DESTRUCTIVE_KEYWORDS.any (contains (P.lowercase command))

/-! Password hashing -/

def hexChar (n : ℕ) : Char := Char.ofNat (if n < 10 then 48 + n else 87 + n)

def toHex (bytes : List UInt8) : Str :=
  bytes.flatMap fun b ↦ [hexChar (b.toNat / 16), hexChar (b.toNat % 16)]

/-- `Character.digit(c, 16)`: digits of any script, and Latin letters in their
plain and full-width forms. -/
def hexDigit (c : Char) : Option ℕ :=
  let n := c.toNat
  match digitZeros.find? (inDigitBlock c) with
  | some z => some (n - z)
  | none =>
    if 0x41 ≤ n ∧ n ≤ 0x46 then some (n - 0x41 + 10)
    else if 0x61 ≤ n ∧ n ≤ 0x66 then some (n - 0x61 + 10)
    else if 0xff21 ≤ n ∧ n ≤ 0xff26 then some (n - 0xff21 + 10)
    else if 0xff41 ≤ n ∧ n ≤ 0xff46 then some (n - 0xff41 + 10)
    else none

/-- `Integer.parseInt(_, 16).toByte()` of two characters; a sign is accepted. -/
def parseHexByte (c d : Char) : Option UInt8 :=
  match hexDigit c, hexDigit d with
  | some a, some b => some (UInt8.ofNat (16 * a + b))
  | none, some b => if c = '+' then some (UInt8.ofNat b)
    else if c = '-' then some (UInt8.ofNat (256 - b)) else none
  | _, none => none

/-- An odd last character is dropped. -/
def fromHex : Str → Option (List UInt8)
  | c :: d :: s => do return (← parseHexByte c d) :: (← fromHex s)
  | _ => some []

def hashPassword (password : Str) (salt : List UInt8) : Str :=
  toHex salt ++ ":" ++ toHex (P.pbkdf2 password salt)

def verifyPassword (password storedHash : Str) : Bool :=
  if isBlank storedHash then false
  else if storedHash.contains ':' then
    match fromHex (storedHash.takeWhile (· != ':')) with
    | some salt => hashPassword P password salt == storedHash
    | none => false
  else toHex (P.sha256 password) == storedHash

/-! Sessions and pending commands -/

/-- The calls on the settings, the clock and the two concurrent maps. -/
inductive Op
  | ownerName
  | adminPasswordHash
  | currentTimeMillis
  | sessionGet (key : Str)
  | sessionPut (key : Str) (time : ℤ)
  | sessionRemove (key : Str)
  | sessionsClear
  | pendingGet (key : Str)
  | pendingPut (key command : Str)
  | pendingRemove (key : Str)
  | pendingClear
  deriving DecidableEq

abbrev sig : Sig where
  Op := Op
  Resp
    | .ownerName | .adminPasswordHash => Str
    | .currentTimeMillis => ℤ
    | .sessionGet _ => Option ℤ
    | .pendingGet _ => Option Str
    | .sessionPut .. | .sessionRemove _ | .sessionsClear | .pendingPut .. | .pendingRemove _
    | .pendingClear => Unit

abbrev Auth (α : Type) := Prog sig Throwable α

abbrev call (op : Op) : Auth (sig.Resp op) := .call op .ret

/-- The two comparisons of `authenticate`, against the stored name and hash. -/
def credentialsMatch (credentials : AdminCredentials) (ownerName storedHash : Str) : Bool :=
  !isBlank storedHash && P.equalsIgnoreCase (trim credentials.username) (trim ownerName) &&
    verifyPassword P credentials.password storedHash

def authenticate (credentials : AdminCredentials) (channelKey : Str) : Auth Bool := do
  let ownerName ← call .ownerName
  let storedHash ← call .adminPasswordHash
  if credentialsMatch P credentials ownerName storedHash then
    let now ← call .currentTimeMillis
    call (.sessionPut channelKey now)
    return true
  else return false

def hasActiveSession (channelKey : Str) : Auth Bool := do
  match ← call (.sessionGet channelKey) with
  | none => return false
  | some lastAuth =>
    let now ← call .currentTimeMillis
    if now - lastAuth < SESSION_TIMEOUT_MS then
      let now ← call .currentTimeMillis
      call (.sessionPut channelKey now)
      return true
    else
      call (.sessionRemove channelKey)
      return false

/-- The calls that leave the pending commands alone. -/
def SessionCall : Op → Prop
  | .pendingGet _ | .pendingPut .. | .pendingRemove _ | .pendingClear => False
  | _ => True

theorem authenticate_calls (credentials : AdminCredentials) (channelKey : Str) :
    (authenticate P credentials channelKey).Calls SessionCall := by
  refine ⟨trivial, fun _ ↦ ⟨trivial, fun _ ↦ ?_⟩⟩
  simp only [Prog.bind]
  split
  · exact ⟨trivial, fun _ ↦ ⟨trivial, fun _ ↦ trivial⟩⟩
  · trivial

theorem hasActiveSession_calls (channelKey : Str) :
    (hasActiveSession channelKey).Calls SessionCall := by
  refine ⟨trivial, fun lastAuth ↦ ?_⟩
  cases lastAuth with
  | none => trivial
  | some lastAuth =>
    refine ⟨trivial, fun now ↦ ?_⟩
    simp only [Prog.bind]
    split
    · exact ⟨trivial, fun _ ↦ ⟨trivial, fun _ ↦ trivial⟩⟩
    · exact ⟨trivial, fun _ ↦ trivial⟩

def setPendingDestructive (channelKey command : Str) : Auth Unit :=
  call (.pendingPut channelKey command)

/-- The map is read, compared and cleared in separate steps. -/
def consumePendingDestructive (channelKey confirmedCommand : Str) : Auth (Option Str) := do
  match ← call (.pendingGet channelKey) with
  | none => return none
  | some pending =>
    if P.equalsIgnoreCase (trim confirmedCommand) (trim pending) then
      call (.pendingRemove channelKey)
      return some pending
    else return none

def clearPendingDestructive (channelKey : Str) : Auth Unit := call (.pendingRemove channelKey)

def clearSession (channelKey : Str) : Auth Unit := do
  call (.sessionRemove channelKey)
  clearPendingDestructive channelKey

def clearAllSessions : Auth Unit := do
  call .sessionsClear
  call .pendingClear

/-- The settings read by `authenticate` and the two maps. -/
structure State where
  ownerName : Str
  adminPasswordHash : Str
  activeSessions : Str → Option ℤ
  pendingDestructiveCommands : Str → Option Str

/-- One call on the state, at the time `now`. -/
def State.answer (now : ℤ) (s : State) : (op : Op) → sig.Resp op × State
  | .ownerName => (s.ownerName, s)
  | .adminPasswordHash => (s.adminPasswordHash, s)
  | .currentTimeMillis => (now, s)
  | .sessionGet key => (s.activeSessions key, s)
  | .sessionPut key t => ((), { s with activeSessions := Function.update s.activeSessions key (some t) })
  | .sessionRemove key => ((), { s with activeSessions := Function.update s.activeSessions key none })
  | .sessionsClear => ((), { s with activeSessions := fun _ ↦ none })
  | .pendingGet key => (s.pendingDestructiveCommands key, s)
  | .pendingPut key command =>
    ((), { s with
      pendingDestructiveCommands := Function.update s.pendingDestructiveCommands key (some command) })
  | .pendingRemove key =>
    ((), { s with
      pendingDestructiveCommands := Function.update s.pendingDestructiveCommands key none })
  | .pendingClear => ((), { s with pendingDestructiveCommands := fun _ ↦ none })

abbrev State.semantics (now : ℤ) (op : Op) (s : State) : sig.Resp op × State := s.answer now op

theorem exec_authenticate (credentials : AdminCredentials) (channelKey : Str) (now : ℤ) (s : State) :
    (authenticate P credentials channelKey).exec (State.semantics now) s =
      if credentialsMatch P credentials s.ownerName s.adminPasswordHash then
        (.ok true, { s with activeSessions := Function.update s.activeSessions channelKey (some now) })
      else (.ok false, s) := by
  change Prog.exec _ (if credentialsMatch P credentials s.ownerName s.adminPasswordHash then _ else _) s = _
  by_cases h : credentialsMatch P credentials s.ownerName s.adminPasswordHash
  · rw [if_pos h, if_pos h]
    rfl
  · rw [if_neg h, if_neg h]
    rfl

theorem exec_hasActiveSession_none {channelKey : Str} {s : State} (h : s.activeSessions channelKey = none) (now : ℤ) :
    (hasActiveSession channelKey).exec (State.semantics now) s = (.ok false, s) := by
  unfold hasActiveSession
  simp only [Prog.call_bind, Prog.ret_bind, Prog.exec_call, State.semantics, State.answer, h]
  rfl

theorem exec_hasActiveSession_some {channelKey : Str} {lastAuth : ℤ} {s : State}
    (h : s.activeSessions channelKey = some lastAuth) (now : ℤ) :
    (hasActiveSession channelKey).exec (State.semantics now) s =
      if now - lastAuth < SESSION_TIMEOUT_MS then
        (.ok true, { s with activeSessions := Function.update s.activeSessions channelKey (some now) })
      else (.ok false, { s with activeSessions := Function.update s.activeSessions channelKey none }) := by
  unfold hasActiveSession
  simp only [Prog.call_bind, Prog.ret_bind, Prog.exec_call, State.semantics, State.answer, h]
  change Prog.exec _ (if now - lastAuth < SESSION_TIMEOUT_MS then _ else _) s = _
  by_cases hrecent : now - lastAuth < SESSION_TIMEOUT_MS
  · rw [if_pos hrecent, if_pos hrecent]
    rfl
  · rw [if_neg hrecent, if_neg hrecent]
    rfl

end Aigentik.AdminAuthManager
