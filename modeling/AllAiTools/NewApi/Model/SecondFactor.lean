import AllAiTools.Foundation.Table
import AllAiTools.NewApi.Common.Str

namespace AllAiTools.NewApi.Model.SecondFactor

open Foundation Common.Str

section Totp

def backupCodeLength : ℕ := 8

def maxFailAttempts : ℕ := 5

/-- In seconds. -/
def lockoutDuration : ℤ := 300

/-- What the codes are checked with: upper case, time-based codes for a secret, and hashes. -/
structure Verifier where
  toUpper : String → String
  validate : String → String → ℤ → Bool
  validatePasswordAndHash : String → String → Bool

variable (v : Verifier)

def validateTOTPCode (secret code : String) (now : ℤ) : Bool :=
  let cleanCode := removeAll code ' '
  cleanCode.utf8ByteSize = 6 && v.validate cleanCode secret now

def cleanBackupCode (code : String) : String := v.toUpper (removeAll code '-')

def validBackupChar (char : Char) : Bool :=
  ('A' ≤ char && char ≤ 'Z') || ('0' ≤ char && char ≤ '9')

def validateBackupCode (code : String) : Bool :=
  (cleanBackupCode v code).utf8ByteSize = backupCodeLength &&
    (cleanBackupCode v code).toList.all validBackupChar

def normalizeBackupCode (code : String) : String :=
  let cleanCode := cleanBackupCode v code
  if cleanCode.utf8ByteSize = backupCodeLength then
    String.ofList (cleanCode.toList.take 4) ++ "-" ++ String.ofList (cleanCode.toList.drop 4)
  else code

end Totp

/-- Times are in milliseconds. -/
structure TwoFA where
  secret : String
  failedAttempts : ℕ := 0
  lockedUntil : Option ℤ := none
  lastUsedAt : Option ℤ := none
  deriving DecidableEq

structure BackupCode where
  id : ℤ
  codeHash : String
  isUsed : Bool := false
  usedAt : Option ℤ := none
  deriving DecidableEq

namespace TwoFA

def isLocked (t : TwoFA) (now : ℤ) : Bool := t.lockedUntil.any (now < ·)

/-- `IncrementFailedAttempts`, up to its update. -/
def incrementFailedAttempts (t : TwoFA) (now : ℤ) : TwoFA :=
  { t with
    failedAttempts := t.failedAttempts + 1
    lockedUntil := if maxFailAttempts ≤ t.failedAttempts + 1 then
      some (now + lockoutDuration * 1000) else t.lockedUntil }

def markUsed (t : TwoFA) (now : ℤ) : TwoFA :=
  { t with failedAttempts := 0, lockedUntil := none, lastUsedAt := some now }

end TwoFA

section Calls

/-- Where a call stands between its statements, with the row as it holds it. -/
inductive Phase
  | idle
  | holding (t : TwoFA)
  | savingCode (t : TwoFA) (bc : BackupCode)
  | updating (t : TwoFA)

/-- A statement of a call, with what the call does before its next one. -/
inductive Act
  | load
  | totp (code : String)
  | backup (code : String)
  | saveCode (failed : Bool)
  | update (failed : Bool)
  deriving DecidableEq

structure Step where
  call : ℕ
  wait : ℕ
  act : Act

/-- A code that was compared, and whether it was right. -/
structure Evaluation where
  time : ℤ
  success : Bool
  deriving DecidableEq

/-- The stored row and codes of the user, the calls, and what has happened. -/
structure State where
  row : TwoFA
  codes : Table BackupCode.id
  calls : ℕ → Phase := fun _ ↦ .idle
  now : ℤ := 0
  log : List Evaluation := []
  accepted : List ℤ := []

def State.set (s : State) (call : ℕ) (phase : Phase) : State :=
  { s with calls := Function.update s.calls call phase }

/-- The code was wrong: the attempt is counted in the held row, which is still to be saved. -/
def State.wrong (s : State) (call : ℕ) (t : TwoFA) : State :=
  { s.set call (.updating (t.incrementFailedAttempts s.now)) with
    log := s.log ++ [⟨s.now, false⟩] }

def State.right (s : State) (call : ℕ) (t : TwoFA) : State :=
  { s.set call (.updating (t.markUsed s.now)) with log := s.log ++ [⟨s.now, true⟩] }

variable (v : Verifier)

/-- `ValidateTOTPAndUpdateUsage`, up to the update. -/
def validateTOTPAndUpdateUsage (s : State) (call : ℕ) (t : TwoFA) (code : String) : State :=
  if t.isLocked s.now then s
  else if !validateTOTPCode v t.secret code s.now then s.wrong call t
  else s.right call t

/-- `ValidateBackupCodeAndUpdateUsage` with the query of `ValidateBackupCode`. -/
def validateBackupCodeAndUpdateUsage (s : State) (call : ℕ) (t : TwoFA) (code : String) : State :=
  if t.isLocked s.now then s
  else if !validateBackupCode v code then s
  else
    let backupCodes := s.codes.rows.filter (!·.isUsed)
    match backupCodes.find? fun bc ↦
        v.validatePasswordAndHash (normalizeBackupCode v code) bc.codeHash with
    | none => s.wrong call t
    | some bc => s.set call (.savingCode t { bc with isUsed := true, usedAt := some s.now })

/-- The code is used up, which is when the call has made up its mind. -/
def saveCode (s : State) (call : ℕ) (t : TwoFA) (bc : BackupCode) : State :=
  { s.right call t with
    codes := s.codes.save bc
    accepted := s.accepted ++ [bc.id] }

def act (s : State) (call : ℕ) (a : Act) : State :=
  match a, s.calls call with
  | .load, .idle => s.set call (.holding s.row)
  | .load, .holding _ => s.set call (.holding s.row)
  | .totp code, .holding t => validateTOTPAndUpdateUsage v s call t code
  | .backup code, .holding t => validateBackupCodeAndUpdateUsage v s call t code
  | .saveCode failed, .savingCode t bc =>
    if failed then s.set call (.holding t) else saveCode s call t bc
  -- an update that fails is only logged
  | .update failed, .updating t =>
    { s.set call (.holding t) with row := if failed then s.row else t }
  | _, _ => s

def step (s : State) (x : Step) : State := act v { s with now := s.now + x.wait } x.call x.act

end Calls

end AllAiTools.NewApi.Model.SecondFactor
