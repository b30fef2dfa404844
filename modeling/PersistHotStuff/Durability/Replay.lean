import PersistHotStuff.Basis.Register
import PersistHotStuff.Durability.Pointers

/-!
# Replay over a later state

A log replayed over the state it led to. Without commits the pointers stay where
they are: certificates and views are registers. With a commit the replay fails,
since the commit indices lie behind.
-/

namespace PersistHotStuff

open Basis

namespace LogEntry

/-- What an entry writes to the high certificate. -/
def qcWrite : LogEntry → Option (Write (Hash × Nat × Nat))
  | qcFormed blockHash view epoch _ _ => some (.raise (blockHash, view, epoch))
  | highQcUpdated blockHash view epoch _ => some (.set (blockHash, view, epoch))
  | _ => none

/-- What an entry writes to the view. -/
def viewWrite : LogEntry → Option (Write Nat)
  | viewChanged _ newView _ _ => some (.set newView)
  | _ => none

/-- Whether an entry records a commit. -/
def isCommit : LogEntry → Bool
  | blockCommitted .. => true
  | _ => false

end LogEntry

/-- The view part of a certificate pointer, by which raises are ranked. -/
def pointerView (p : Hash × Nat × Nat) : Nat := p.2.1

/-- One entry other than a commit acts on the registers of the state and on nothing else of the
pointers. -/
theorem replayEntry_registers {entry : LogEntry} (h : entry.isCommit = false) (st : Recovered) :
    ∃ st', replayEntry entry st = .ok st' ∧ st'.committedLog = st.committedLog ∧
      st'.committedUpTo = st.committedUpTo ∧
      st'.highQc.map QuorumCert.pointer =
        Write.applyAll pointerView (st.highQc.map QuorumCert.pointer) entry.qcWrite.toList ∧
      some st'.currentView =
        Write.applyAll id (some st.currentView) entry.viewWrite.toList := by
  cases entry with
  | blockCommitted hash parent view epoch proposer command commitIndex timestamp => cases h
  | qcFormed blockHash view epoch signerCount timestamp =>
    refine ⟨_, rfl, rfl, rfl, ?_, rfl⟩
    cases hq : st.highQc with
    | none => rfl
    | some hq' =>
      by_cases hlt : hq'.view < view
      · simp only [hlt, decide_true, if_true, Option.map_some]
        simp only [LogEntry.qcWrite, Option.toList_some, Write.applyAll, List.foldl_cons,
          List.foldl_nil, Write.apply, pointerView, QuorumCert.pointer, hlt, if_true]
      · simp only [hlt, decide_false, Bool.false_eq_true, if_false, Option.map_some]
        simp only [LogEntry.qcWrite, Option.toList_some, Write.applyAll, List.foldl_cons,
          List.foldl_nil, Write.apply, pointerView, QuorumCert.pointer, hlt, if_false]
  | _ => exact ⟨_, rfl, rfl, rfl, rfl, rfl⟩

/-- Entries without commits act on the registers in order. -/
theorem replayEntries_registers {entries : List LogEntry}
    (h : ∀ e ∈ entries, e.isCommit = false) (st : Recovered) :
    ∃ st', replayEntries entries st = .ok st' ∧ st'.committedLog = st.committedLog ∧
      st'.committedUpTo = st.committedUpTo ∧
      st'.highQc.map QuorumCert.pointer =
        Write.applyAll pointerView (st.highQc.map QuorumCert.pointer)
          (entries.filterMap LogEntry.qcWrite) ∧
      some st'.currentView =
        Write.applyAll id (some st.currentView) (entries.filterMap LogEntry.viewWrite) := by
  induction entries generalizing st with
  | nil => exact ⟨st, rfl, rfl, rfl, rfl, rfl⟩
  | cons entry entries ih =>
    have hh := List.forall_mem_cons.mp h
    obtain ⟨mid, hone, hlog, hup, hqc, hview⟩ := replayEntry_registers hh.1 st
    obtain ⟨st', hrest, hlog', hup', hqc', hview'⟩ := ih hh.2 mid
    refine ⟨st', ?_, hlog'.trans hlog, hup'.trans hup, ?_, ?_⟩
    · rw [replayEntries, hone]
      exact hrest
    · rw [hqc', hqc]
      cases hw : entry.qcWrite with
      | none => rw [List.filterMap_cons_none hw]; rfl
      | some w => rw [List.filterMap_cons_some hw]; rfl
    · rw [hview', hview]
      cases hw : entry.viewWrite with
      | none => rw [List.filterMap_cons_none hw]; rfl
      | some w => rw [List.filterMap_cons_some hw]; rfl

/-- Replay of one entry adds a block to the log exactly when it is a commit. -/
theorem replayEntry_length {entry : LogEntry} {st st' : Recovered}
    (h : replayEntry entry st = .ok st') :
    st'.committedLog.length = st.committedLog.length + if entry.isCommit then 1 else 0 := by
  cases entry with
  | blockCommitted hash parent view epoch proposer command commitIndex timestamp =>
    simp only [replayEntry] at h
    split at h
    · cases h
    · cases h
      simp [LogEntry.isCommit]
  | _ =>
    cases h
    rfl

/-- Replay adds as many blocks to the log as there are commits. -/
theorem replayEntries_length {entries : List LogEntry} {st st' : Recovered}
    (h : replayEntries entries st = .ok st') :
    st'.committedLog.length = st.committedLog.length + entries.countP LogEntry.isCommit := by
  induction entries generalizing st with
  | nil =>
    cases h
    rfl
  | cons entry entries ih =>
    simp only [replayEntries] at h
    cases hone : replayEntry entry st with
    | error e =>
      rw [hone] at h
      cases h
    | ok mid =>
      rw [hone] at h
      rw [ih h, replayEntry_length hone, List.countP_cons]
      omega

/-- Replayed over the state it led to, a log without commits changes no pointer. -/
theorem replayEntries_again {entries : List LogEntry} {a st b : Recovered}
    (h : replayEntries entries a = .ok st)
    (hno : st.committedLog.length = a.committedLog.length) (hb : b.pointers = st.pointers) :
    ∃ st', replayEntries entries b = .ok st' ∧ st'.pointers = st.pointers := by
  have hcount : entries.countP LogEntry.isCommit = 0 := by
    have := replayEntries_length h
    omega
  have hall : ∀ e ∈ entries, e.isCommit = false := by
    intro e he
    rw [List.countP_eq_zero] at hcount
    simpa using hcount e he
  obtain ⟨st₁, h₁, -, -, hqc, hview⟩ := replayEntries_registers hall a
  rw [h] at h₁
  cases h₁
  obtain ⟨st', h', hlog', hup', hqc', hview'⟩ := replayEntries_registers hall b
  simp only [Recovered.pointers, Pointers.mk.injEq] at hb ⊢
  obtain ⟨hb1, hb2, hb3, hb4⟩ := hb
  refine ⟨st', h', by rw [hlog', hb1], by rw [hup', hb2], ?_, ?_⟩
  · rw [hqc', hb3, hqc, Write.applyAll_again]
  · rw [← Option.some.injEq, hview', hb4, hview, Write.applyAll_again]

/-- Replayed over a log of another length, the first commit fails. -/
theorem replayEntries_behind {entries : List LogEntry} {a st b : Recovered}
    (h : replayEntries entries a = .ok st)
    (hcommit : st.committedLog.length ≠ a.committedLog.length)
    (hb : b.committedLog.length ≠ a.committedLog.length) :
    ∃ e, replayEntries entries b = .error e := by
  induction entries generalizing a b with
  | nil =>
    cases h
    exact absurd rfl hcommit
  | cons entry entries ih =>
    simp only [replayEntries] at h ⊢
    cases hone : replayEntry entry a with
    | error e =>
      rw [hone] at h
      cases h
    | ok mid =>
      rw [hone] at h
      cases hc : entry.isCommit with
      | true =>
        cases entry with
        | blockCommitted hash parent view epoch proposer command commitIndex timestamp =>
          have hidx : commitIndex = a.committedLog.length := by
            by_contra hne
            simp only [replayEntry, ne_eq, hne, not_false_eq_true, if_true] at hone
            cases hone
          have hne : commitIndex ≠ b.committedLog.length := fun he => hb (he.symm.trans hidx)
          simp only [replayEntry, ne_eq, hne, not_false_eq_true, if_true]
          exact ⟨_, rfl⟩
        | _ => cases hc
      | false =>
        obtain ⟨mid', hone', hlog', -⟩ := replayEntry_registers hc b
        have hmid := replayEntry_length hone
        rw [hc] at hmid
        simp only [hone']
        refine ih h ?_ ?_
        · rw [hmid]
          exact hcommit
        · rw [hmid, hlog']
          exact hb

end PersistHotStuff
