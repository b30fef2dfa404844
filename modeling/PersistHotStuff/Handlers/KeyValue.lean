import Mathlib.Data.List.TakeWhile
import PersistHotStuff.Basis.LastWriter
import PersistHotStuff.Handlers.Execution
import PersistHotStuff.Source.Sample

/-!
# The key-value store as a last-writer-wins map

A payload is a verb, a key and more, cut at the first two spaces. What it asks
for is said here by its text, without cutting it. The store answers with the
value that was set last for a key and not deleted since, and a snapshot can be
restored between any two commands.
-/

namespace PersistHotStuff

open Basis

section Grammar

theorem splitn_of_notMem (n : Nat) {s : List Char} (h : ' ' ∉ s) : splitn (n + 2) s = [s] := by
  have hall : ∀ c ∈ s, (c != ' ') = true := fun c hc => bne_iff_ne.mpr fun he => h (he ▸ hc)
  rw [splitn, List.span_eq_takeWhile_dropWhile, List.takeWhile_eq_self_iff.mpr hall,
    List.dropWhile_eq_nil_iff.mpr hall]

theorem splitn_append (n : Nat) {part : List Char} (h : ' ' ∉ part) (rest : List Char) :
    splitn (n + 2) (part ++ ' ' :: rest) = part :: splitn (n + 1) rest := by
  have hall : ∀ c ∈ part, (c != ' ') = true := fun c hc => bne_iff_ne.mpr fun he => h (he ▸ hc)
  rw [splitn, List.span_eq_takeWhile_dropWhile, List.takeWhile_append_of_pos hall,
    List.dropWhile_append_of_pos hall]
  simp

/-- A text has no space, one space, or more than one; it is cut at the first two. -/
theorem splitn_three_cases (s : List Char) :
    (' ' ∉ s ∧ splitn 3 s = [s]) ∨
      (∃ word key, ' ' ∉ word ∧ ' ' ∉ key ∧ s = word ++ ' ' :: key ∧ splitn 3 s = [word, key]) ∨
      ∃ word key more, ' ' ∉ word ∧ ' ' ∉ key ∧ s = word ++ ' ' :: (key ++ ' ' :: more) ∧
        splitn 3 s = [word, key, more] := by
  by_cases hs : ' ' ∈ s
  · obtain ⟨word, tail, rfl, hword⟩ := List.eq_append_cons_of_mem hs
    by_cases htail : ' ' ∈ tail
    · obtain ⟨key, more, rfl, hkey⟩ := List.eq_append_cons_of_mem htail
      refine .inr (.inr ⟨word, key, more, hword, hkey, rfl, ?_⟩)
      rw [splitn_append 1 hword, splitn_append 0 hkey]
      rfl
    · refine .inr (.inl ⟨word, tail, hword, htail, rfl, ?_⟩)
      rw [splitn_append 1 hword, splitn_of_notMem 0 htail]
  · exact .inl ⟨hs, splitn_of_notMem 1 hs⟩

end Grammar

namespace KeyValueApp

section Requests

/-- A transaction whose payload is a word that reads as the verb in capitals, a space, a key without
spaces and, after another space, possibly more. -/
def Requests (command : ConsensusCommand) (verb key : String) (more : Option String) : Prop :=
  ∃ payload word, command = .clientTx payload ∧ ' ' ∉ word ∧ ' ' ∉ key.toList ∧
    word.map toUppercase = verb.toList ∧
    payload.toList = word ++ ' ' :: (key.toList ++
      match more with
      | none => []
      | some rest => ' ' :: rest.toList)

/-- A well-formed `SET`, with everything after the second space as the value. -/
def Sets (command : ConsensusCommand) (key value : String) : Prop :=
  Requests command "SET" key (some value)

/-- A well-formed `DEL`. -/
def Deletes (command : ConsensusCommand) (key : String) : Prop :=
  ∃ more, Requests command "DEL" key more

/-- A well-formed `GET`. -/
def Gets (command : ConsensusCommand) (key : String) : Prop :=
  ∃ more, Requests command "GET" key more

/-- Some command sets the key to the value, and no later one sets or deletes the key. -/
def LastSet (cmds : List CommittedCommand) (key value : String) : Prop :=
  Standing (fun cmd : CommittedCommand => Sets cmd.command)
    (fun cmd : CommittedCommand => Deletes cmd.command) cmds key value

/-- A request is cut into its parts. -/
theorem splitn_of_requests {payload verb key : String} {more : Option String}
    (h : Requests (.clientTx payload) verb key more) :
    ∃ word, word.map toUppercase = verb.toList ∧
      splitn 3 payload.toList = word :: key.toList :: (more.map String.toList).toList := by
  obtain ⟨_, word, heq, hword, hkey, hverb, htext⟩ := h
  cases heq
  refine ⟨word, hverb, ?_⟩
  rw [htext, splitn_append 1 hword]
  cases more with
  | none =>
    simp only [List.append_nil]
    rw [splitn_of_notMem 0 hkey]
    rfl
  | some rest =>
    simp only
    rw [splitn_append 0 hkey]
    rfl

/-- Parts come from a request. -/
theorem requests_of_splitn {payload verb : String} {word key : List Char} {rest : List (List Char)}
    (hverb : word.map toUppercase = verb.toList)
    (hparts : splitn 3 payload.toList = word :: key :: rest) :
    Requests (.clientTx payload) verb (String.ofList key) (rest.head?.map String.ofList) := by
  rcases splitn_three_cases payload.toList with ⟨-, hcut⟩ | ⟨w, k, hw, hk, htext, hcut⟩ |
    ⟨w, k, more, hw, hk, htext, hcut⟩
  · rw [hcut] at hparts
    cases hparts
  · rw [hcut] at hparts
    cases hparts
    refine ⟨payload, word, rfl, hw, ?_, hverb, ?_⟩
    · rwa [String.toList_ofList]
    · rw [htext, String.toList_ofList]
      simp
  · rw [hcut] at hparts
    cases hparts
    refine ⟨payload, word, rfl, hw, ?_, hverb, ?_⟩
    · rwa [String.toList_ofList]
    · simp [htext, String.toList_ofList]

/-- A list with a verb first and a key second. -/
theorem parts_of_getElem? {parts : List (List Char)} {verb key : List Char}
    (hhead : parts.head?.map (·.map toUppercase) = some verb) (hkey : parts[1]? = some key) :
    ∃ word rest, word.map toUppercase = verb ∧ parts = word :: key :: rest := by
  cases parts with
  | nil => cases hhead
  | cons word tail =>
    cases tail with
    | nil => cases hkey
    | cons k rest =>
      cases hkey
      exact ⟨word, rest, Option.some.inj hhead, rfl⟩

/-- A command writes a value exactly when it is a well-formed `SET` of it. -/
theorem write_eq_set_iff {command : ConsensusCommand} {key value : String} :
    write command = some (key, some value) ↔ Sets command key value := by
  constructor
  · intro h
    cases command with
    | clientTx payload =>
      simp only [write] at h
      split at h
      · next hhead hkey hvalue =>
        obtain ⟨word, rest, hverb, hparts⟩ := parts_of_getElem? hhead hkey
        have hreq : Requests _ "SET" _ _ := requests_of_splitn hverb hparts
        rw [hparts] at hvalue
        have hrest : rest.head? = some _ := (List.head?_eq_getElem?).trans hvalue
        rw [hrest, Option.map_some] at hreq
        cases h
        exact hreq
      · cases h
      · cases h
    | _ => cases h
  · intro h
    obtain ⟨payload, word, rfl, -⟩ := id h
    obtain ⟨word, hverb, hparts⟩ := splitn_of_requests h
    have hset : word.map toUppercase = ['S', 'E', 'T'] := hverb
    simp [write, hparts, hset]

/-- A command deletes a key exactly when it is a well-formed `DEL`. -/
theorem write_eq_delete_iff {command : ConsensusCommand} {key : String} :
    write command = some (key, none) ↔ Deletes command key := by
  constructor
  · intro h
    cases command with
    | clientTx payload =>
      simp only [write] at h
      split at h
      · cases h
      · next hhead hkey =>
        obtain ⟨word, rest, hverb, hparts⟩ := parts_of_getElem? hhead hkey
        have hreq : Requests _ "DEL" _ _ := requests_of_splitn hverb hparts
        cases h
        exact ⟨_, hreq⟩
      · cases h
    | _ => cases h
  · rintro ⟨more, h⟩
    obtain ⟨payload, word, rfl, -⟩ := id h
    obtain ⟨word, hverb, hparts⟩ := splitn_of_requests h
    have hdel : word.map toUppercase = ['D', 'E', 'L'] := hverb
    simp [write, hparts, hdel]

/-- A command that spares a key writes another one or none. -/
theorem spares_iff {command : ConsensusCommand} {key : String} :
    Spares Sets Deletes key command ↔ ∀ w ∈ write command, w.1 ≠ key := by
  constructor
  · rintro ⟨hset, hdel⟩ ⟨k, value⟩ hw rfl
    cases value with
    | none => exact hdel (write_eq_delete_iff.mp hw)
    | some v => exact hset v (write_eq_set_iff.mp hw)
  · intro h
    exact ⟨fun v hv => h _ (write_eq_set_iff.mpr hv) rfl,
      fun hdel => h _ (write_eq_delete_iff.mpr hdel) rfl⟩

/-- The store follows what commands set and delete. -/
theorem lastWriter :
    LastWriter (fun (app : KeyValueApp) (cmd : CommittedCommand) => (app.apply cmd).2) get
      (fun cmd => Sets cmd.command) (fun cmd => Deletes cmd.command) where
  set app cmd key value h := by
    rw [get_apply, write_eq_set_iff.mpr h]
    exact if_pos rfl
  clear app cmd key h := by
    rw [get_apply, write_eq_delete_iff.mpr h]
    exact if_pos rfl
  spare app cmd key h := by
    have hne := spares_iff.mp h
    rw [get_apply]
    cases hw : write cmd.command with
    | none => rfl
    | some w => exact if_neg fun he => hne w hw he.symm

/-- A `GET` answers with the value of its key, or with nothing. -/
theorem apply_of_gets (app : KeyValueApp) {cmd : CommittedCommand} {key : String}
    (h : Gets cmd.command key) :
    (app.apply cmd).1 = .ok ((app.get key).getD "").toUTF8.data.toList := by
  obtain ⟨more, h⟩ := h
  obtain ⟨payload, word, hcmd, -⟩ := id h
  rw [hcmd] at h
  obtain ⟨word, hverb, hparts⟩ := splitn_of_requests h
  have hget : word.map toUppercase = ['G', 'E', 'T'] := hverb
  simp [apply, hcmd, applyPayload, hparts, hget]

/-- A command that writes nothing leaves the store as it is. -/
theorem apply_of_not_writes (app : KeyValueApp) {cmd : CommittedCommand}
    (h : write cmd.command = none) : (app.apply cmd).2 = app := by
  rw [KeyValueApp.mk.injEq]
  refine OrdMap.ext_get? fun key => ?_
  have hget := get_apply app cmd key
  rw [h] at hget
  exact hget

/-- A refused command writes nothing. -/
theorem write_of_error {app : KeyValueApp} {cmd : CommittedCommand} {e : AppError}
    (h : (app.apply cmd).1 = .error e) : write cmd.command = none := by
  cases hw : write cmd.command with
  | none => rfl
  | some w =>
    obtain ⟨key, value⟩ := w
    have hok : (app.apply cmd).1 = .ok "OK".toUTF8.data.toList := by
      cases value with
      | none =>
        obtain ⟨more, hdel⟩ := write_eq_delete_iff.mp hw
        obtain ⟨payload, word, hcmd, -⟩ := id hdel
        rw [hcmd] at hdel
        obtain ⟨word, hverb, hparts⟩ := splitn_of_requests hdel
        have hdel : word.map toUppercase = ['D', 'E', 'L'] := hverb
        simp [apply, hcmd, applyPayload, hparts, hdel]
      | some v =>
        have hset := write_eq_set_iff.mp hw
        obtain ⟨payload, word, hcmd, -⟩ := id hset
        rw [hcmd] at hset
        obtain ⟨word, hverb, hparts⟩ := splitn_of_requests hset
        have hset : word.map toUppercase = ['S', 'E', 'T'] := hverb
        simp [apply, hcmd, applyPayload, hparts, hset]
    rw [hok] at h
    cases h

end Requests

section Split

/-- The results of an application for a list of commands, and its state after them. -/
def applyAll {σ : Type} [App σ] : σ → List CommittedCommand → List (Except AppError Bytes) × σ
  | app, [] => ([], app)
  | app, cmd :: cmds =>
      let result := App.apply app cmd
      (result.1 :: (applyAll result.2 cmds).1, (applyAll result.2 cmds).2)

section Generic

variable {σ : Type} [App σ]

theorem applyAll_snd (app : σ) (cmds : List CommittedCommand) :
    (applyAll app cmds).2 = run (fun app cmd => (App.apply app cmd).2) app cmds := by
  induction cmds generalizing app with
  | nil => rfl
  | cons cmd cmds ih => exact ih _

theorem length_applyAll (app : σ) (cmds : List CommittedCommand) :
    (applyAll app cmds).1.length = cmds.length := by
  induction cmds generalizing app with
  | nil => rfl
  | cons cmd cmds ih => exact congrArg (· + 1) (ih _)

/-- The results of a list of commands are those of its parts, one after the other. -/
theorem applyAll_append (app : σ) (first second : List CommittedCommand) :
    applyAll app (first ++ second) =
      ((applyAll app first).1 ++ (applyAll (applyAll app first).2 second).1,
        (applyAll (applyAll app first).2 second).2) := by
  induction first generalizing app with
  | nil => rfl
  | cons cmd first ih =>
    rw [List.cons_append, applyAll, ih]
    rfl

/-- The result of one command is what the application answers after those before it. -/
theorem applyAll_getElem? (app : σ) (before after : List CommittedCommand)
    (cmd : CommittedCommand) :
    (applyAll app (before ++ cmd :: after)).1[before.length]? =
      some (App.apply (applyAll app before).2 cmd).1 := by
  rw [applyAll_append, List.getElem?_append_right (length_applyAll app before).le,
    length_applyAll, Nat.sub_self]
  rfl

end Generic

variable [Bincode (OrdMap String String)]

/-- A store restored from a snapshot is the one the snapshot was taken of. -/
theorem restore_snapshot [LawfulBincode (OrdMap String String)] (app other : KeyValueApp) :
    ∃ state, app.snapshot = .ok state ∧ other.restore state = (.ok (), app) :=
  ⟨_, rfl, by simp only [restore, LawfulBincode.deserialize_serialize]⟩

/-- The store after some commands holds the value set last and not deleted since. -/
theorem get_applyAll_new (cmds : List CommittedCommand) (key value : String) :
    (applyAll new cmds).2.get key = some value ↔ LastSet cmds key value := by
  rw [applyAll_snd]
  exact lastWriter.value_run (OrdMap.get?_empty key) cmds value

/-- The store is a last-writer-wins map. In any sequence of committed commands a `GET` answers with
the value of the last well-formed `SET` of its key before it, if no `DEL` of the key came since, and
with the empty string otherwise; commands that are refused, and commands that are not well-formed
`SET`s or `DEL`s, leave the store as it is; and wherever the sequence is split, going on in any
store that the first part's snapshot was restored into gives the same results and the same store. -/
theorem lastWriter_and_split [LawfulBincode (OrdMap String String)] :
    (∀ (before after : List CommittedCommand) (cmd : CommittedCommand) (key : String),
      Gets cmd.command key →
        (∀ value, LastSet before key value →
          (applyAll new (before ++ cmd :: after)).1[before.length]? =
            some (.ok value.toUTF8.data.toList)) ∧
        ((∀ value, ¬ LastSet before key value) →
          (applyAll new (before ++ cmd :: after)).1[before.length]? =
            some (.ok "".toUTF8.data.toList))) ∧
      (∀ (app : KeyValueApp) (cmd : CommittedCommand),
        ((∃ e, (app.apply cmd).1 = .error e) ∨
          ∀ key, (∀ value, ¬ Sets cmd.command key value) ∧ ¬ Deletes cmd.command key) →
        (app.apply cmd).2 = app) ∧
      ∀ (first second : List CommittedCommand) (other : KeyValueApp), ∃ state restored,
        (applyAll new first).2.snapshot = .ok state ∧ other.restore state = (.ok (), restored) ∧
          (applyAll new first).1 ++ (applyAll restored second).1 =
            (applyAll new (first ++ second)).1 ∧
          (applyAll restored second).2 = (applyAll new (first ++ second)).2 := by
  refine ⟨fun before after cmd key hget => ?_, fun app cmd h => ?_, fun first second other => ?_⟩
  · have hanswer : (applyAll new (before ++ cmd :: after)).1[before.length]? =
        some (.ok (((applyAll new before).2.get key).getD "").toUTF8.data.toList) := by
      rw [applyAll_getElem?]
      exact congrArg some (apply_of_gets _ hget)
    rw [hanswer]
    constructor
    · intro value hstanding
      rw [(get_applyAll_new before key value).mpr hstanding]
      rfl
    · intro hnone
      have hget : (applyAll new before).2.get key = none := by
        rw [applyAll_snd]
        exact (lastWriter.value_run_eq_none (OrdMap.get?_empty key) before).mpr hnone
      rw [hget]
      rfl
  · refine apply_of_not_writes app ?_
    rcases h with ⟨e, he⟩ | hneither
    · exact write_of_error he
    · rw [Option.eq_none_iff_forall_ne_some]
      rintro ⟨key, value⟩ hw
      cases value with
      | none => exact (hneither key).2 (write_eq_delete_iff.mp hw)
      | some v => exact (hneither key).1 v (write_eq_set_iff.mp hw)
  · obtain ⟨state, hstate, hrestore⟩ := restore_snapshot (applyAll new first).2 other
    refine ⟨state, _, hstate, hrestore, ?_⟩
    rw [applyAll_append]
    exact ⟨rfl, rfl⟩

end Split

section Samples

open Sample

/-- A transaction committed at some place. -/
def committedTx (payload : String) : CommittedCommand where
  blockHash := 1
  view := 1
  epoch := 0
  proposer := 0
  command := .clientTx payload
  commitIndex := 0

/-- The verb may be written in small letters, and the value has a space. -/
theorem lastWriter_and_split_spaces :
    (applyAll new (["SET a 1", "set a x y", "DEL b", "SET a"].map committedTx ++
      [committedTx "GET a"])).1[4]? = some (.ok "x y".toUTF8.data.toList) := by
  have hget : Gets (committedTx "GET a").command "a" :=
    ⟨none, "GET a", "GET".toList, rfl, by decide, by decide, by decide, by decide⟩
  have hset : Sets (committedTx "set a x y").command "a" "x y" :=
    ⟨"set a x y", "set".toList, rfl, by decide, by decide, by decide, by decide⟩
  have hlast : LastSet (["SET a 1", "set a x y", "DEL b", "SET a"].map committedTx) "a" "x y" := by
    refine ⟨[committedTx "SET a 1"], committedTx "set a x y",
      [committedTx "DEL b", committedTx "SET a"], rfl, hset, fun cmd hcmd => ?_⟩
    have hwrites : ∀ c ∈ [committedTx "DEL b", committedTx "SET a"],
        ∀ w ∈ write c.command, w.1 ≠ "a" := by decide
    exact spares_iff.mpr (hwrites cmd hcmd)
  exact (lastWriter_and_split.1 _ [] (committedTx "GET a") "a" hget).1 "x y" hlast

end Samples

end KeyValueApp

end PersistHotStuff
