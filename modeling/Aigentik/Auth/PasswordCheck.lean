import Aigentik.Auth.CredentialsRoundTrip

namespace Aigentik.PasswordCheck

open Strings
open AdminAuthManager (toHex fromHex)
open CredentialsRoundTrip (salt_hashPassword fromHex_toHex verifyPassword_hashPassword takeWhile_colon)

variable (P : Platform)

/-- `PBEKeySpec` takes no empty salt. -/
def hashPassword (password : Str) (salt : List UInt8) : Except Throwable Str :=
  if salt = [] then throw ⟨"IllegalArgumentException", some "the salt parameter must not be empty"⟩
  else return AdminAuthManager.hashPassword P password salt

/-- `verifyPassword` with what it throws. -/
def verifyPassword (password storedHash : Str) : Except Throwable Bool :=
  if isBlank storedHash then return false
  else if storedHash.contains ':' then
    match fromHex (storedHash.takeWhile (· != ':')) with
    | some salt => do return (← hashPassword P password salt) == storedHash
    | none => return false
  else return toHex (P.sha256 password) == storedHash

variable {P} {password storedHash salt rest : Str} {bytes : List UInt8}

theorem hashPassword_ok (hne : bytes ≠ []) :
    hashPassword P password bytes = .ok (AdminAuthManager.hashPassword P password bytes) := if_neg hne

theorem verifyPassword_ok (h : fromHex (storedHash.takeWhile (· != ':')) ≠ some [] ∨ ':' ∉ storedHash) :
    verifyPassword P password storedHash = .ok (AdminAuthManager.verifyPassword P password storedHash) := by
  unfold verifyPassword AdminAuthManager.verifyPassword
  split
  · rfl
  · split
    · rename_i hcolon
      have hsalt := h.resolve_right (not_not.mpr (List.contains_iff_mem.mp hcolon))
      cases hbytes : fromHex (storedHash.takeWhile (· != ':')) with
      | none => rfl
      | some bytes =>
        have hne : bytes ≠ [] := fun hnil ↦ hsalt (hnil ▸ hbytes)
        dsimp only
        rw [hashPassword_ok hne]
        rfl
    · rfl

theorem verify_hash (p q : Str) (hne : bytes ≠ []) :
    verifyPassword P q (AdminAuthManager.hashPassword P p bytes) =
      .ok (decide (P.pbkdf2 q bytes = P.pbkdf2 p bytes)) := by
  have hsalt : fromHex ((AdminAuthManager.hashPassword P p bytes).takeWhile (· != ':')) ≠ some [] := by
    rw [salt_hashPassword, fromHex_toHex]
    exact fun h ↦ hne (Option.some.inj h)
  rw [verifyPassword_ok (.inl hsalt),
    Bool.eq_iff_iff.mpr ((verifyPassword_hashPassword q p).trans decide_eq_true_iff.symm)]

theorem verify_legacy (q : Str) (hblank : isBlank storedHash = false) (hcolon : ':' ∉ storedHash) :
    verifyPassword P q storedHash = .ok (decide (storedHash = toHex (P.sha256 q))) := by
  rw [verifyPassword_ok (.inr hcolon), AdminAuthManager.verifyPassword, hblank, if_neg Bool.false_ne_true,
    if_neg (List.contains_iff_mem.not.mpr hcolon)]
  exact congrArg Except.ok (Bool.eq_iff_iff.mpr (beq_iff_eq.trans (eq_comm.trans decide_eq_true_iff.symm)))

/-- Two characters stand for a byte, if for anything. -/
theorem fromHex_ne_nil (hlength : 2 ≤ salt.length) : fromHex salt ≠ some [] := by
  obtain ⟨c, rest, rfl⟩ := List.exists_cons_of_length_pos (Nat.lt_of_lt_of_le Nat.two_pos hlength)
  obtain ⟨d, s, rfl⟩ := List.exists_cons_of_length_pos (Nat.lt_of_succ_le (Nat.le_of_succ_le_succ hlength))
  rw [fromHex]
  intro h
  cases hbyte : AdminAuthManager.parseHexByte c d with
  | none =>
    rw [hbyte] at h
    cases h
  | some byte =>
    rw [hbyte] at h
    cases hs : fromHex s with
    | none =>
      rw [hs] at h
      cases h
    | some bytes =>
      rw [hs] at h
      cases h

/-- A salt that is not the hex of any bytes lets no password pass. -/
theorem verify_not_hex (q : Str) (hcolon : ':' ∉ salt) (hlength : 2 ≤ salt.length)
    (hhex : ∀ bytes, salt ≠ toHex bytes) : verifyPassword P q (salt ++ ':' :: rest) = .ok false := by
  have hsalt : fromHex ((salt ++ ':' :: rest).takeWhile (· != ':')) ≠ some [] := by
    rw [takeWhile_colon hcolon]
    exact fromHex_ne_nil hlength
  have hblank : isBlank (salt ++ ':' :: rest) = false := by
    have hvisible : isWhitespace ':' = false := by decide
    simp [isBlank, hvisible]
  have hmem : (salt ++ ':' :: rest).contains ':' = true := by simp
  rw [verifyPassword_ok (.inl hsalt), AdminAuthManager.verifyPassword, hblank, if_neg Bool.false_ne_true, if_pos hmem,
    takeWhile_colon hcolon]
  cases fromHex salt with
  | none => rfl
  | some bytes =>
    refine congrArg Except.ok (beq_eq_false_iff_ne.mpr fun heq ↦ hhex bytes ?_)
    rw [← takeWhile_colon (t := rest) hcolon, ← heq, salt_hashPassword]

/-- A password is accepted exactly if it has the hash that is stored, and a malformed salt lets none pass. -/
theorem password_check (P : Platform) :
    (∀ p q salt, salt ≠ [] → ∃ storedHash, hashPassword P p salt = .ok storedHash ∧
      verifyPassword P q storedHash = .ok (decide (P.pbkdf2 q salt = P.pbkdf2 p salt))) ∧
    (∀ q storedHash, isBlank storedHash = false → ':' ∉ storedHash →
      verifyPassword P q storedHash = .ok (decide (storedHash = toHex (P.sha256 q)))) ∧
    ∀ q salt rest, ':' ∉ salt → 2 ≤ salt.length → (∀ bytes, salt ≠ toHex bytes) →
      verifyPassword P q (salt ++ ':' :: rest) = .ok false :=
  ⟨fun p q _ hne ↦ ⟨_, hashPassword_ok hne, verify_hash p q hne⟩, fun q _ ↦ verify_legacy q,
    fun q _ _ ↦ verify_not_hex q⟩

/-- One character is no salt at all. -/
example : verifyPassword asciiPlatform [] "0:00" =
    .error ⟨"IllegalArgumentException", some "the salt parameter must not be empty"⟩ := by
  decide +kernel

end Aigentik.PasswordCheck
