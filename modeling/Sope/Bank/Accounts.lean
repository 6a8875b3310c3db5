import Sope.Bank.Signature

/-! # The table of accounts

The functions of `accounts.c`. A pointer to an entry of `accounts` is the index of the entry, `NULL`
is `none`. The log is left out, and `generateHash` and `generateSalt` are calls of the system. -/

namespace Sope

open Concurrency

/-- The table after `clearAccounts`: no account is used. -/
def clearAccounts : UInt32 → Slot := fun _ => ⟨false, ⟨0, [], [], 0⟩⟩

/-- `getAccount`. -/
def getAccount (accountId : UInt32) : Server (Option UInt32) := do
  let used : Bool ← access (.readUsed accountId)
  if used then return some accountId else return none

/-- The end of `createAccount`, when the salt has been generated. The assignment of the whole record
`account` to `accounts[id]` writes its fields one after the other. -/
def fillAccount (id balance : UInt32) (password salt : Bytes) : Server Unit := do
  let hash : Option Bytes ← sys (.generateHash password salt)
  match hash with
  | none => return ()
  | some hash =>
      access (.writeAccountId id id)
      access (.writeHash id hash)
      access (.writeSalt id salt)
      access (.writeBalance id balance)
      access (.writeUsed id true)

/-- `createAccount`. -/
def createAccount (id balance : UInt32) (password : Bytes) : Server Unit := do
  let salt : Bytes ← sys .generateSalt
  fillAccount id balance password salt

/-- `setupAccounts` of `server.c`, after `clearAccounts`. -/
def setupAccounts (adminPassword : Bytes) : Server Unit := do
  lockAccount 0
  createAccount adminAccountId 0 adminPassword
  unlockAccount 0

end Sope
