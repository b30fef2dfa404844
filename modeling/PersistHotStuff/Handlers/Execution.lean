import PersistHotStuff.Handlers.Call
import PersistHotStuff.Source.KeyValue

/-!
# Execution of committed blocks

A replica with an application forwards every block it commits, with its commit
index. So the state of the application is the fold of the blocks of the log. For
the key-value store that is the last value written for each key.
-/

namespace PersistHotStuff

open Basis

/-- What the application is told of a committed block. -/
def committedCommand (block : Block) (commitIndex : Nat) : CommittedCommand where
  blockHash := block.hash
  view := block.view
  epoch := block.epoch
  proposer := block.proposer
  command := block.command
  commitIndex := commitIndex

/-- The state of an application after blocks, the first of which has the given commit index. -/
def execute {σ : Type} [App σ] : σ → Nat → List Block → σ
  | app, _, [] => app
  | app, index, block :: blocks =>
      execute (App.apply app (committedCommand block index)).2 (index + 1) blocks

theorem execute_append {σ : Type} [App σ] (app : σ) (index : Nat) (blocks more : List Block) :
    execute app index (blocks ++ more) =
      execute (execute app index blocks) (index + blocks.length) more := by
  induction blocks generalizing app index with
  | nil => rfl
  | cons block blocks ih =>
    rw [List.cons_append, execute, ih, execute, List.length_cons, Nat.add_right_comm, Nat.add_assoc]

namespace Replica

section Commit

variable {σ : Type} [Ed25519] [Bincode LogEntry] [Crc32] [App σ]

/-- A committed block is executed under the index it gets in the log. -/
theorem executeAndCommit_app (now : Nat) (r : Replica σ) (block : Block) :
    (r.executeAndCommit now block).app =
      r.app.map fun app => execute app r.committedLog.length [block] := by
  simp only [executeAndCommit, onCommit, record]
  rw [applyMembershipCommand_eq]
  cases happ : r.app with
  | none => simp only [applyToApp, withMembership, Option.map_none]
  | some app =>
    simp only [applyToApp, withMembership, Option.map_some, List.length_append,
      List.length_singleton, Nat.add_sub_cancel]
    rfl

/-- The ready blocks are executed in order. -/
theorem commitAll_app (now : Nat) (r : Replica σ) (h : TreeKeyed r.blockTree) :
    (r.commitAll now).app = r.app.map fun app => execute app r.committedLog.length r.ready := by
  rw [commitAll_eq_foldl now r h]
  generalize r.ready = blocks
  induction blocks generalizing r with
  | nil =>
    show r.app = r.app.map id
    rw [Option.map_id, id]
  | cons block blocks ih =>
    rw [List.foldl_cons, ih _ (by rwa [executeAndCommit_blockTree]), executeAndCommit_app,
      executeAndCommit_committedLog, Option.map_map, List.length_append, List.length_singleton]
    rfl

variable [Sha256]

/-- Only `commitAll` changes the application. -/
theorem step_app (r : Replica σ) (h : TreeKeyed r.blockTree) (c : Nat × Call) :
    (r.step c).app =
      match c.2 with
      | .commitAll => r.app.map fun app => execute app r.committedLog.length r.ready
      | _ => r.app := by
  obtain ⟨now, call⟩ := c
  cases call with
  | commitAll => exact commitAll_app now r h
  | _ => exact step_frame Replica.app (by intros; rfl) r (by simp)

/-- A call keeps the application at the fold of the log. -/
theorem app_step {r : Replica σ} (hkeyed : TreeKeyed r.blockTree) {fresh : σ}
    (h : r.app = some (execute fresh 0 r.committedLog)) (c : Nat × Call) :
    (r.step c).app = some (execute fresh 0 (r.step c).committedLog) := by
  rw [step_app r hkeyed, step_committedLog r hkeyed]
  obtain ⟨now, call⟩ := c
  cases call with
  | commitAll =>
    simp only [h, Option.map_some]
    rw [execute_append, Nat.zero_add]
  | _ => exact h

end Commit

end Replica

namespace KeyValueApp

/-- What a command writes: a key with its new value, or without one if it is deleted. -/
def write : ConsensusCommand → Option (String × Option String)
  | .clientTx payload =>
      let parts := splitn 3 payload.toList
      match parts.head?.map (·.map toUppercase), parts[1]?, parts[2]? with
      | some ['S', 'E', 'T'], some key, some value => some (String.ofList key, String.ofList value)
      | some ['D', 'E', 'L'], some key, _ => some (String.ofList key, none)
      | _, _, _ => none
  | _ => none

/-- A command changes the value of the key it writes and of no other. -/
theorem get_apply (app : KeyValueApp) (cmd : CommittedCommand) (key : String) :
    (app.apply cmd).2.get key =
      match write cmd.command with
      | some w => if key = w.1 then w.2 else app.get key
      | none => app.get key := by
  cases hcmd : cmd.command with
  | clientTx payload =>
    simp only [apply, hcmd, applyPayload, write]
    generalize (splitn 3 payload.toList).head?.map (·.map toUppercase) = verb
    generalize (splitn 3 payload.toList)[1]? = first
    generalize (splitn 3 payload.toList)[2]? = second
    split
    · cases first with
      | none => rfl
      | some k =>
        cases second with
        | none => rfl
        | some v => exact OrdMap.get?_insert ..
    · cases first <;> rfl
    · cases first with
      | none => rfl
      | some k => exact OrdMap.get?_erase ..
    · rename_i hset hget hdel
      split
      · rename_i h
        split at h
        · exact absurd rfl hset
        · exact absurd rfl hdel
        · cases h
      · rfl
  | _ => simp only [apply, hcmd, write]

/-- The last write of a list of blocks to a key. -/
def lastWrite (blocks : List Block) (key : String) : Option (Option String) :=
  ((blocks.filterMap fun block => write block.command).reverse.find? fun w => w.1 == key).map
    Prod.snd

theorem lastWrite_append (blocks more : List Block) (key : String) :
    lastWrite (blocks ++ more) key = (lastWrite more key).or (lastWrite blocks key) := by
  rw [lastWrite, List.filterMap_append, List.reverse_append, List.find?_append, Option.map_or]
  rfl

/-- The value the store has for a key after a list of blocks. -/
def lastValue (blocks : List Block) (key : String) : Option String := (lastWrite blocks key).join

/-- Every key written after the first `covered` blocks ends with the value it had there. -/
def Settled (blocks : List Block) (covered : Nat) : Prop :=
  ∀ block ∈ blocks.drop covered, ∀ w ∈ write block.command,
    lastValue blocks w.1 = lastValue (blocks.take covered) w.1

instance (blocks : List Block) (covered : Nat) : Decidable (Settled blocks covered) :=
  inferInstanceAs (Decidable (∀ block ∈ blocks.drop covered, ∀ w ∈ write block.command,
    lastValue blocks w.1 = lastValue (blocks.take covered) w.1))

variable [Bincode (OrdMap String String)]

/-- The store holds what was last written. -/
theorem get_execute (app : KeyValueApp) (index : Nat) (blocks : List Block) (key : String) :
    (execute app index blocks).get key = (lastWrite blocks key).getD (app.get key) := by
  induction blocks generalizing app index with
  | nil => rfl
  | cons block blocks ih =>
    have hone : (app.apply (committedCommand block index)).2.get key =
        (lastWrite [block] key).getD (app.get key) := by
      rw [get_apply, committedCommand]
      cases hw : write block.command with
      | none => simp [lastWrite, hw]
      | some w =>
        by_cases hk : key = w.1
        · simp [lastWrite, hw, hk]
        · simp [lastWrite, hw, hk, Ne.symm hk]
    rw [execute, ih, ← List.singleton_append, lastWrite_append, Option.getD_or]
    exact congrArg _ hone

theorem get_execute_new (index : Nat) (blocks : List Block) (key : String) :
    (execute new index blocks).get key = lastValue blocks key := by
  rw [get_execute, lastValue]
  cases lastWrite blocks key <;> rfl

/-- Later blocks leave the store as it was exactly when all they wrote is settled. -/
theorem execute_take_eq_iff (blocks : List Block) (covered : Nat) :
    execute new 0 (blocks.take covered) = execute new 0 blocks ↔ Settled blocks covered := by
  constructor
  · intro h block _ w _
    rw [← get_execute_new 0, ← get_execute_new 0, h]
  · intro h
    have hget : ∀ key, (execute new 0 (blocks.take covered)).get key =
        (execute new 0 blocks).get key := by
      intro key
      rw [get_execute_new, get_execute_new]
      cases hlast : lastWrite (blocks.drop covered) key with
      | none =>
        have hsplit := lastWrite_append (blocks.take covered) (blocks.drop covered) key
        rw [List.take_append_drop, hlast, Option.none_or] at hsplit
        rw [lastValue, lastValue, hsplit]
      | some value =>
        obtain ⟨w, hw, -⟩ := Option.map_eq_some_iff.mp hlast
        obtain ⟨block, hblock, hwrite⟩ :=
          List.mem_filterMap.mp (List.mem_reverse.mp (List.mem_of_find?_eq_some hw))
        have hkey : w.1 = key := by simpa using List.find?_some hw
        rw [← hkey]
        exact (h block hblock w hwrite).symm
    have hstore := OrdMap.ext_get? hget
    rw [KeyValueApp.mk.injEq]
    exact hstore

end KeyValueApp

end PersistHotStuff
