import Mathlib.Data.String.Basic
import PersistHotStuff.Source.App
import PersistHotStuff.Source.Wal

/-!
# Key-value application

An in-memory store driven by client transactions of the forms `SET key value`,
`GET key` and `DEL key`. Every other command is acknowledged without effect.
-/

namespace PersistHotStuff

open Basis

/-- `splitn(n, ' ')`: at most `n` parts, the last one with all that is left. -/
def splitn : Nat → List Char → List (List Char)
  | 0, _ => []
  | 1, s => [s]
  | n + 2, s =>
      match s.span (· != ' ') with
      | (part, []) => [part]
      | (part, _ :: rest) => part :: splitn (n + 1) rest

/-- The capital of a letter. The long s is the only letter outside ASCII whose capital occurs in a
verb; other capitals are left out. -/
def toUppercase (c : Char) : Char := if c = 'ſ' then 'S' else c.toUpper

/-- A simple key-value store application. -/
structure KeyValueApp where
  store : OrdMap String String
  deriving DecidableEq

namespace KeyValueApp

/-- The empty store. -/
def new : KeyValueApp := ⟨OrdMap.empty⟩

/-- Read a value from the store. -/
def get (app : KeyValueApp) (key : String) : Option String := app.store.get? key

/-- Execute a client transaction. -/
def applyPayload (app : KeyValueApp) (payload : String) : Except AppError Bytes × KeyValueApp :=
  let parts := splitn 3 payload.toList
  match parts.head?.map (·.map toUppercase) with
  | some ['S', 'E', 'T'] =>
      match parts[1]? with
      | none => (.error (.invalidCommand "SET requires <key> <value>"), app)
      | some key =>
          match parts[2]? with
          | none => (.error (.invalidCommand "SET requires <key> <value>"), app)
          | some value =>
              (.ok "OK".toUTF8.data.toList,
                { app with store := app.store.insert (String.ofList key) (String.ofList value) })
  | some ['G', 'E', 'T'] =>
      match parts[1]? with
      | none => (.error (.invalidCommand "GET requires <key>"), app)
      | some key => (.ok ((app.get (String.ofList key)).getD "").toUTF8.data.toList, app)
  | some ['D', 'E', 'L'] =>
      match parts[1]? with
      | none => (.error (.invalidCommand "DEL requires <key>"), app)
      | some key =>
          (.ok "OK".toUTF8.data.toList, { app with store := app.store.erase (String.ofList key) })
  | _ => (.ok [], app)

/-- Execute a committed command. -/
def apply (app : KeyValueApp) (cmd : CommittedCommand) : Except AppError Bytes × KeyValueApp :=
  match cmd.command with
  | .clientTx payload => app.applyPayload payload
  | _ => (.ok [], app)

variable [Bincode (OrdMap String String)]

/-- Capture the store. -/
def snapshot (app : KeyValueApp) : Except AppError Bytes := .ok (Bincode.serialize app.store)

/-- Replace the store by a captured one. -/
def restore (app : KeyValueApp) (state : Bytes) : Except AppError Unit × KeyValueApp :=
  match Bincode.deserialize state with
  -- the source passes on the text of bincode's error
  | none => (.error (.snapshotError "deserialize"), app)
  | some store => (.ok (), { app with store := store })

instance : App KeyValueApp where
  apply := apply
  snapshot := snapshot
  restore := restore

end KeyValueApp

end PersistHotStuff
