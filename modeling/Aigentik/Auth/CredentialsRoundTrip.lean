import Aigentik.Auth.AgentSettingsViewModel
import Aigentik.Strings.Lines

namespace Aigentik.CredentialsRoundTrip

open Strings Effects AdminAuthManager AgentSettingsViewModel

/-- The documented form of a remote command. -/
def message (o p c : Str) : Str :=
  "Admin: ".toList ++ o ++ "\nPassword: ".toList ++ p ++ "\n".toList ++ c

/-- ASCII characters at the beginning of a text are lowercased on their own. -/
def LowersASCII (P : Platform) : Prop :=
  ∀ s t : Str, (∀ c ∈ s, c.toNat < 128) → s.map Char.toLower <+: P.lowercase (s ++ t)

variable {P : Platform} {o p c t : Str} {salt : List UInt8}

/-! Hashes -/

theorem hexDigit_hexChar : ∀ n < 16, hexDigit (hexChar n) = some n := by decide

theorem hexChar_ne_colon : ∀ n < 16, hexChar n ≠ ':' := by decide

theorem fromHex_toHex (bytes : List UInt8) : fromHex (toHex bytes) = some bytes := by
  induction bytes with
  | nil => rfl
  | cons b bytes ih =>
    have hb : b.toNat < 256 := b.toNat_lt
    have byte : parseHexByte (hexChar (b.toNat / 16)) (hexChar (b.toNat % 16)) = some b := by
      rw [parseHexByte, hexDigit_hexChar _ (by omega), hexDigit_hexChar _ (by omega)]
      simp only [Nat.div_add_mod, UInt8.ofNat_toNat]
    change fromHex (hexChar _ :: hexChar _ :: toHex bytes) = _
    rw [fromHex, byte, ih]
    rfl

theorem toHex_injective {a b : List UInt8} (h : toHex a = toHex b) : a = b := by
  have := congrArg fromHex h
  rw [fromHex_toHex, fromHex_toHex] at this
  exact Option.some.inj this

theorem colon_not_mem_toHex (bytes : List UInt8) : ':' ∉ toHex bytes := by
  intro h
  obtain ⟨b, -, hb⟩ := List.mem_flatMap.mp h
  have hlt : b.toNat < 256 := b.toNat_lt
  rcases List.mem_cons.mp hb with hb | hb
  · exact hexChar_ne_colon _ (by omega) hb.symm
  · exact hexChar_ne_colon _ (by omega) (List.mem_singleton.mp hb).symm

theorem hashPassword_eq (password : Str) : hashPassword P password salt =
    toHex salt ++ ':' :: toHex (P.pbkdf2 password salt) := by
  simp [hashPassword]

theorem isBlank_hashPassword (password : Str) : isBlank (hashPassword P password salt) = false := by
  rw [hashPassword_eq, isBlank, List.all_append, List.all_cons]
  have : isWhitespace ':' = false := by decide
  simp [this]

theorem takeWhile_colon {h : Str} (hh : ':' ∉ h) : (h ++ ':' :: t).takeWhile (· != ':') = h := by
  rw [List.takeWhile_append_of_pos]
  · rw [List.takeWhile_cons_of_neg (by simp), List.append_nil]
  · intro c hc
    rw [bne_iff_ne]
    intro heq
    subst heq
    exact hh hc

theorem salt_hashPassword (password : Str) :
    (hashPassword P password salt).takeWhile (· != ':') = toHex salt := by
  rw [hashPassword_eq, takeWhile_colon (colon_not_mem_toHex salt)]

/-- A password is verified if it has the hash of the stored one. -/
theorem verifyPassword_hashPassword (password stored : Str) :
    verifyPassword P password (hashPassword P stored salt) = true ↔
      P.pbkdf2 password salt = P.pbkdf2 stored salt := by
  rw [verifyPassword, isBlank_hashPassword, if_neg (by simp), if_pos (by simp [hashPassword]), salt_hashPassword,
    fromHex_toHex]
  simp only [hashPassword_eq, beq_iff_eq, List.append_cancel_left_eq, List.cons.injEq, true_and]
  exact ⟨toHex_injective, congrArg toHex⟩

/-! Header lines -/

/-- The header of a line, up to its colon. -/
structure Header (h : Str) : Prop where
  visible : ∃ c rest, h = c :: rest ∧ isWhitespace c = false
  colon : ':' ∉ h

theorem indexOf_colon {h : Str} (hh : ':' ∉ h) : indexOf (h ++ ':' :: t) ":" = some h.length := by
  induction h with
  | nil => cases t <;> rfl
  | cons c h ih =>
    simp only [List.mem_cons, not_or] at hh
    have hc : startsWith (c :: (h ++ ':' :: t)) ":" = false := by
      rw [startsWith]
      exact Bool.and_eq_false_imp.mpr fun h ↦ (hh.1 (beq_iff_eq.mp h)).elim
    have tails_eq : (c :: (h ++ ':' :: t)).tails = (c :: (h ++ ':' :: t)) :: (h ++ ':' :: t).tails := rfl
    rw [indexOf] at ih ⊢
    rw [List.cons_append, tails_eq, List.findIdx?_cons, hc, if_neg (by simp), ih hh.2]
    rfl

theorem substringAfter_colon {h : Str} (hh : ':' ∉ h) : substringAfter (h ++ ':' :: t) ":" = t := by
  rw [substringAfter, indexOf_colon hh]
  simp

theorem trim_line {h : Str} (hh : Header h) : trim (h ++ ':' :: t) = h ++ ':' :: t.rdropWhile isWhitespace := by
  obtain ⟨c, rest, hc, hvisible⟩ := hh.visible
  have hcolon : (h ++ [':']).rdropWhile isWhitespace = h ++ [':'] := List.rdropWhile_concat_neg _ _ _ (by decide)
  have hsplit : h ++ ':' :: t = (h ++ [':']) ++ t := by simp
  have hcons : h ++ ':' :: t = c :: (rest ++ ':' :: t) := by simp [hc]
  rw [hcons, trim_cons hvisible, ← hcons, hsplit, rdropWhile_append_of_self _ hcolon]
  simp

theorem value_line {h : Str} (hh : Header h) :
    trim (substringAfter (trim (h ++ ':' :: ' ' :: t)) ":") = trim t := by
  rw [trim_line hh, substringAfter_colon hh.colon, trim_rdropWhile, trim_blank_cons (by decide)]

theorem rdropWhile_of_trim (h : trim c = c) : c.rdropWhile isWhitespace = c := by
  rw [← h, trim, List.rdropWhile_idempotent]

theorem message_eq (o p c : Str) : message o p c =
    ("Admin".toList ++ ':' :: ' ' :: o) ++ '\n' :: (("Password".toList ++ ':' :: ' ' :: p) ++ '\n' :: c) := by
  have admin : "Admin: ".toList = "Admin".toList ++ [':', ' '] := by decide
  have password : "\nPassword: ".toList = '\n' :: ("Password".toList ++ [':', ' ']) := by decide
  have newline : "\n".toList = ['\n'] := by decide
  unfold message
  rw [admin, password, newline]
  simp only [List.append_assoc, List.cons_append, List.nil_append]

theorem singleLine_line {h : Str} (hh : SingleLine h) (ht : SingleLine t) : SingleLine (h ++ ':' :: ' ' :: t) :=
  hh.append (SingleLine.append (s := [':', ' ']) (by decide) ht)

theorem rdropWhile_password (a : Str) :
    (a ++ '\n' :: (("Password".toList ++ ':' :: ' ' :: p) ++ ['\n'])).rdropWhile isWhitespace =
      a ++ '\n' :: ("Password".toList ++ ':' :: ' ' :: p).rdropWhile isWhitespace := by
  have visible : ("Password".toList ++ ':' :: ' ' :: p).rdropWhile isWhitespace ≠ [] := by
    rw [Ne, List.rdropWhile_eq_nil_iff]
    intro h
    have letter := h 'P' (by simp)
    revert letter
    decide
  have hsplit : a ++ '\n' :: (("Password".toList ++ ':' :: ' ' :: p) ++ ['\n']) =
      ((a ++ ['\n']) ++ ("Password".toList ++ ':' :: ' ' :: p)) ++ ['\n'] := by simp
  rw [hsplit, rdropWhile_append_of_all _ (by decide), rdropWhile_append _ visible, List.append_assoc,
    List.singleton_append]

/-- The lines that `parseAdminMessage` sees: the headers first, and then the command. -/
theorem message_lines (ho : SingleLine o) (hp : SingleLine p) (hc : trim c = c)
    (hlines : ∀ l ∈ lines c, trim l = l) :
    ∃ rest, (lines (trim (message o p c))).map trim =
        trim ("Admin".toList ++ ':' :: ' ' :: o) :: trim ("Password".toList ++ ':' :: ' ' :: p) :: rest ∧
      joinToString "\n" rest = joinToString "\n" (lines c) := by
  have admin : SingleLine ("Admin".toList ++ ':' :: ' ' :: o) := singleLine_line (by decide) ho
  have password : SingleLine ("Password".toList ++ ':' :: ' ' :: p) := singleLine_line (by decide) hp
  have htrim : trim (message o p c) = (message o p c).rdropWhile isWhitespace := by
    rw [message_eq]
    exact trim_cons (by decide)
  by_cases hnil : c = []
  · refine ⟨[], ?_, by rw [hnil]; rfl⟩
    have hlast : (message o p c).rdropWhile isWhitespace = ("Admin".toList ++ ':' :: ' ' :: o) ++
        '\n' :: ("Password".toList ++ ':' :: ' ' :: p).rdropWhile isWhitespace := by
      rw [message_eq, hnil]
      exact rdropWhile_password _
    rw [htrim, hlast, lines, linesFrom_append _ admin, lines, linesFrom_line _ (password.rdropWhile _)]
    simp only [List.reverse_nil, List.nil_append, List.map_cons, List.map_nil, trim_rdropWhile]
  · refine ⟨lines c, ?_, rfl⟩
    have hself : (message o p c).rdropWhile isWhitespace = message o p c := by
      have hc' := rdropWhile_of_trim hc
      have happend : ∀ s : Str, (s ++ c).rdropWhile isWhitespace = s ++ c := by
        intro s
        rw [rdropWhile_append _ (by rwa [hc']), hc']
      exact happend _
    rw [htrim, hself, message_eq, lines, linesFrom_append _ admin, lines, linesFrom_append _ password]
    simp only [List.reverse_nil, List.nil_append, List.map_cons]
    rw [List.map_congr_left hlines, List.map_id']

theorem lowercase_header (hP : LowersASCII P) {h : Str} (hascii : ∀ c ∈ h, c.toNat < 128) :
    ∃ u, P.lowercase (h ++ t) = h.map Char.toLower ++ u := by
  obtain ⟨u, hu⟩ := hP h t hascii
  exact ⟨u, hu.symm⟩

theorem admin_headed (hP : LowersASCII P) :
    headed P "admin:" "admin :" ("Admin".toList ++ ':' :: t) = true ∧
      headed P "password:" "password :" ("Admin".toList ++ ':' :: t) = false := by
  obtain ⟨u, hu⟩ := lowercase_header (t := t) hP (h := "Admin:".toList) (by simp)
  have hlower : P.lowercase ("Admin".toList ++ ':' :: t) = "admin:".toList ++ u := hu
  rw [headed, headed, hlower]
  exact ⟨rfl, rfl⟩

theorem password_headed (hP : LowersASCII P) :
    headed P "password:" "password :" ("Password".toList ++ ':' :: t) = true := by
  obtain ⟨u, hu⟩ := lowercase_header (t := t) hP (h := "Password:".toList) (by simp)
  have hlower : P.lowercase ("Password".toList ++ ':' :: t) = "password:".toList ++ u := hu
  rw [headed, hlower]
  rfl

theorem admin_header : Header "Admin".toList := ⟨⟨'A', "dmin".toList, rfl, by decide⟩, by decide⟩

theorem password_header : Header "Password".toList := ⟨⟨'P', "assword".toList, rfl, by decide⟩, by decide⟩

theorem parseAdminMessage_message (hP : LowersASCII P) (ho : SingleLine o) (hp : SingleLine p) (hc : trim c = c)
    (hlines : ∀ l ∈ lines c, trim l = l) :
    parseAdminMessage P (message o p c) =
      if isBlank o || isBlank p then none
      else some ⟨trim o, trim p, trim (joinToString "\n" (lines c))⟩ := by
  obtain ⟨rest, hrest, hjoin⟩ := message_lines ho hp hc hlines
  have hname := value_line (t := o) admin_header
  have hpassword := value_line (t := p) password_header
  rw [trim_line admin_header] at hname
  rw [trim_line password_header] at hpassword
  rw [trim_line admin_header, trim_line password_header] at hrest
  generalize (' ' :: o).rdropWhile isWhitespace = o' at hname hrest
  generalize (' ' :: p).rdropWhile isWhitespace = p' at hpassword hrest
  have hne : "Admin".toList ++ ':' :: o' ≠ "Password".toList ++ ':' :: p' := by
    intro h
    have letter := congrArg List.head? h
    cases letter
  rw [parseAdminMessage]
  simp only [hrest]
  rw [List.find?_cons_of_pos (admin_headed hP).1, List.find?_cons_of_neg (Bool.not_eq_true _ ▸ (admin_headed hP).2),
    List.find?_cons_of_pos (password_headed hP)]
  simp only [hname, hpassword, isBlank_trim]
  rw [List.idxOf_cons_self, List.idxOf_cons_ne _ hne, List.idxOf_cons_self, ← hjoin]
  rfl

/-! The round trip -/

variable {s : AgentSettingsUiState} {settings : Settings} {auth : State} {channelKey : Str} {now : ℤ}

/-- What `authenticate` reads, after a form has been stored. -/
def withSettings (auth : State) (settings : Settings) : State :=
  { auth with ownerName := settings.ownerName, adminPasswordHash := settings.adminPasswordHash }

/-- The message gives credentials with the command, and they authenticate its channel. -/
def RoundTrips (P : Platform) (auth : State) (o p c channelKey : Str) (now : ℤ) : Prop :=
  ∃ credentials, parseAdminMessage P (message o p c) = some credentials ∧ credentials.command = c ∧
    ((authenticate P credentials channelKey).exec (State.semantics now) auth).1 = .ok true

theorem authenticate_ok {credentials : AdminCredentials} :
    ((authenticate P credentials channelKey).exec (State.semantics now) auth).1 = .ok true ↔
      credentialsMatch P credentials auth.ownerName auth.adminPasswordHash = true := by
  rw [exec_authenticate]
  split <;> simp [*]

theorem credentialsMatch_stored (h : (save P salt s settings).1 = true) (hne : s.adminPassword ≠ []) :
    credentialsMatch P ⟨trim s.ownerName, trim s.adminPassword, c⟩
        (withSettings auth (save P salt s settings).2.2).ownerName
        (withSettings auth (save P salt s settings).2.2).adminPasswordHash = true ↔
      P.pbkdf2 (trim s.adminPassword) salt = P.pbkdf2 s.adminPassword salt := by
  obtain ⟨-, hname, hhash⟩ := save_accepted h
  rw [withSettings, hname, hhash hne, credentialsMatch, isBlank_hashPassword, trim_trim, Platform.equalsIgnoreCase,
    beq_self_eq_true, ← verifyPassword_hashPassword]
  rfl

theorem command_iff (hc : trim c = c) : trim (joinToString "\n" (lines c)) = c ↔ '\r' ∉ c := by
  constructor
  · intro h hr
    rw [← h] at hr
    exact not_mem_joinToString_linesFrom [] List.not_mem_nil (trim_subset hr)
  · intro hr
    rw [lines, joinToString_linesFrom [] hr]
    exact hc

theorem credentials_roundTrip_iff (hP : LowersASCII P) (accepted : (save P salt s settings).1 = true)
    (distinct : P.pbkdf2 (trim s.adminPassword) salt = P.pbkdf2 s.adminPassword salt →
      trim s.adminPassword = s.adminPassword)
    (ho : SingleLine s.ownerName) (hp : SingleLine s.adminPassword) (hc : trim c = c)
    (hlines : ∀ l ∈ lines c, trim l = l) :
    RoundTrips P (withSettings auth (save P salt s settings).2.2) s.ownerName s.adminPassword c channelKey now ↔
      s.adminPassword ≠ [] ∧ trim s.adminPassword = s.adminPassword ∧ '\r' ∉ c := by
  have hparse := parseAdminMessage_message hP ho hp hc hlines
  have hname := (save_accepted accepted).1
  rw [RoundTrips, hparse, hname, Bool.false_or]
  constructor
  · intro h
    obtain ⟨credentials, hsome, hcommand, hauth⟩ := h
    cases hblank : isBlank s.adminPassword with
    | true =>
      rw [hblank, if_pos rfl] at hsome
      cases hsome
    | false =>
      rw [hblank, if_neg (by simp)] at hsome
      obtain rfl := Option.some.inj hsome
      have hne : s.adminPassword ≠ [] := by
        intro hnil
        rw [hnil] at hblank
        cases hblank
      have hhash := (credentialsMatch_stored accepted hne).mp (authenticate_ok.mp hauth)
      exact ⟨hne, distinct hhash, (command_iff hc).mp hcommand⟩
  · intro h
    obtain ⟨hne, htrim, hr⟩ := h
    have hblank : isBlank s.adminPassword = false := by
      rw [Bool.eq_false_iff, Ne, ← trim_eq_nil_iff, htrim]
      exact hne
    rw [hblank, if_neg (by simp)]
    refine ⟨_, rfl, (command_iff hc).mpr hr, authenticate_ok.mpr ?_⟩
    exact (credentialsMatch_stored accepted hne).mpr (congrArg (P.pbkdf2 · salt) htrim)

/-- The form of an owner "Ann" with a password. -/
def form (password : Str) : AgentSettingsUiState where
  ownerName := "Ann"
  adminNumber := "+16502530000"
  adminPassword := password
  adminPasswordConfirm := password

def fresh : Settings where
  agentName := "Aigentik"
  ownerName := []
  adminNumber := []
  adminPasswordHash := []
  isPaused := false
  isConfigured := false
  channelEnabled _ := true
  channelState _ := true

def noSessions : State := ⟨[], [], fun _ ↦ none, fun _ ↦ none⟩

def drawn : List UInt8 := [0, 1, 2, 3, 4, 5, 6, 7, 8, 9, 10, 11, 12, 13, 14, 15]

theorem asciiPlatform_lowersASCII : LowersASCII asciiPlatform := by
  intro s t _
  change s.map Char.toLower <+: (s ++ t).map Char.toLower
  rw [List.map_append]
  exact List.prefix_append _ _

theorem trimmed_password_roundTrips :
    RoundTrips asciiPlatform (withSettings noSessions (save asciiPlatform drawn (form "s3cret") fresh).2.2)
      "Ann" "s3cret" "status" "+1555" 0 :=
  (credentials_roundTrip_iff asciiPlatform_lowersASCII (by decide +kernel) (by decide +kernel) (by decide +kernel)
    (by decide +kernel) (by decide +kernel) (by decide +kernel)).mpr (by decide +kernel)

/-- The platform with the hash of one more password. -/
def paddedPlatform : Platform :=
  { asciiPlatform with
    pbkdf2 password salt :=
      if password = "s3cret ".toList ∧ salt = drawn then
        [11, 65, 121, 29, 187, 103, 153, 196, 165, 122, 182, 118, 182, 217, 32, 201, 241, 65, 223, 13, 84, 27,
          120, 146, 98, 223, 126, 146, 161, 118, 21, 44]
      else asciiPlatform.pbkdf2 password salt }

/-- A password that ends in a blank is stored with it and compared without it. -/
theorem padded_password_fails :
    (save paddedPlatform drawn (form "s3cret ") fresh).1 = true ∧
      ¬ RoundTrips paddedPlatform (withSettings noSessions (save paddedPlatform drawn (form "s3cret ") fresh).2.2)
        "Ann" "s3cret " "status" "+1555" 0 := by
  have parsed : parseAdminMessage paddedPlatform (message "Ann" "s3cret " "status") =
      some ⟨"Ann", "s3cret", "status"⟩ := by decide +kernel
  refine ⟨by decide +kernel, ?_⟩
  intro h
  obtain ⟨credentials, hsome, -, hauth⟩ := h
  obtain rfl := Option.some.inj (parsed.symm.trans hsome)
  have matched := authenticate_ok.mp hauth
  revert matched
  decide +kernel

end Aigentik.CredentialsRoundTrip
