import PersistHotStuff.Handlers.Drain
import PersistHotStuff.Simulator.Leaders
import PersistHotStuff.Simulator.ViewRange

/-!
# What survives

A crash drops a replica, a recovery rebuilds it from its directory and lets it
catch up with the others, and a new program opens what the last one has left.
What a replica has committed stays committed through all of it, in order, and
its view never falls back.
-/

namespace PersistHotStuff

open Basis

/-- The committed hashes extend the others, and the view is no earlier. -/
structure Pointers.Extends (p q : Pointers) : Prop where
  committed : p.committed <+: q.committed
  view : p.currentView ≤ q.currentView

/-- No hash is committed twice, and the last one is the one committed up to. -/
structure Pointers.InOrder (p : Pointers) : Prop where
  distinct : p.committed.Nodup
  upTo : p.committedUpTo = p.committed.getLast?

theorem Pointers.Extends.refl (p : Pointers) : p.Extends p := ⟨List.prefix_rfl, le_rfl⟩

theorem Pointers.Extends.trans {p q s : Pointers} (h : p.Extends q) (h' : q.Extends s) :
    p.Extends s :=
  ⟨h.committed.trans h'.committed, h.view.trans h'.view⟩

namespace Simulation

section Standing

variable {σ : Type} [Bincode LogEntry] [Bincode Snapshot] [Crc32] [Sha256]
  {P : ReplicaId → Pointers → Prop} {sim : Simulation σ}

/-- A directory that restores such pointers. -/
def RestoresTo (P : Pointers → Prop) (dir : DataDir) : Prop :=
  ∃ stored p, genesisBlock ∈ stored ∧ DirKnows stored dir p ∧ P p

/-- Where the live replicas stand and where their directories put the crashed ones, by name. -/
def Stands (P : ReplicaId → Pointers → Prop) (sim : Simulation σ) : Prop :=
  Seated (fun r _ => P r.config.id r.pointers)
    (fun r dir => ∀ d ∈ dir, RestoresTo (P r.config.id) d) sim

/-- What a simulation leaves behind restores where its replica stands. -/
theorem Stands.leaves (h : Stands P sim) {blocks : List Block} (hgenesis : genesisBlock ∈ blocks)
    (hstocked : Stocked blocks sim) {id : Nat} {dir : DataDir}
    (hleaves : sim.leaves id = some dir) :
    ∃ r, sim.replicas[id]? = some r ∧ RestoresTo (P r.config.id) dir := by
  rw [Simulation.leaves] at hleaves
  split at hleaves
  · rename_i r d hr hd
    cases hleaves
    refine ⟨r, hr, ?_⟩
    split
    · rename_i hi
      exact h.left id r hr hi d hd
    · rename_i hi
      exact ⟨blocks, _, hgenesis, ((hstocked.live id r hr hi).disk d hd).stored, h.live id r hr hi⟩
  · cases hleaves

/-- A replica opened from a directory stands where the directory puts it. -/
theorem RestoresTo.openReplica [LawfulBincode LogEntry] [StrictBincode LogEntry]
    [LawfulBincode Snapshot] {Q : Pointers → Prop} {dir : DataDir} (h : RestoresTo Q dir)
    {now id : Nat} {config : Config} {keystore : KeyStore} {opened : Replica σ}
    (hok : openReplica now id config keystore dir = .ok opened) : Q opened.pointers := by
  obtain ⟨stored, p, hgenesis, hknows, hp⟩ := h
  rwa [(hknows.openReplica (framesFit_of_openReplica hok) hgenesis hok).1]

variable [Ed25519] [App σ]

/-- What calls keep of where a replica stands, and a rejoin next to others that stand so. -/
structure StandingRule (σ : Type) [Bincode LogEntry] [Crc32] [Sha256] [Ed25519] [App σ]
    (P : ReplicaId → Pointers → Prop) : Prop where
  call : ∀ (r : Replica σ) c, TreeKeyed r.blockTree → P r.config.id r.pointers →
    P r.config.id (r.step c).pointers
  rejoin : ∀ now (others : List (Replica σ)) (r : Replica σ),
    (∀ s ∈ others, P s.config.id s.pointers) → P r.config.id r.pointers →
    P r.config.id (synced now others r).pointers

omit [Bincode Snapshot] in
/-- A call leaves the name of the replica alone. -/
theorem step_id (r : Replica σ) (c : Nat × Call) : (r.step c).config.id = r.config.id :=
  congrArg Prod.fst (r.step_identity c)

omit [Bincode Snapshot] in
theorem StandingRule.step (h : StandingRule σ P) {r : Replica σ} (hkeyed : TreeKeyed r.blockTree)
    (hr : P r.config.id r.pointers) (c : Nat × Call) :
    P (r.step c).config.id (r.step c).pointers := by
  rw [step_id]
  exact h.call r c hkeyed hr

variable [LawfulBincode LogEntry] [StrictBincode LogEntry] [LawfulBincode Snapshot]

/-- What the rule keeps, every step and every operation keeps. -/
theorem StandingRule.traceRule (h : StandingRule σ P) : TraceRule fun sim : Simulation σ =>
    ((∃ blocks, genesisBlock ∈ blocks ∧ Stocked blocks sim) ∧ InRange sim) ∧ Stands P sim := by
  refine { call := ?_, snapshot := ?_, respond := ?_, network := ?_, clock := ?_, bump := ?_,
           crash := ?_, recover := ?_, interrupt := ?_, configure := ?_ }
  · rintro sim i r c ⟨hbase, hs⟩ hr ha
    obtain ⟨blocks, -, hstocked⟩ := hbase.1
    have hi := not_crashed_of_available ha
    exact ⟨inRange_rule.call sim i r c hbase hr ha, hs.replace hi (fun _ _ => rfl)
      (h.step (hstocked.live i r hr hi).keyed (hs.live i r hr hi) c)⟩
  · rintro sim i r dir now ⟨hbase, hs⟩ hr ha hdir
    have hi := not_crashed_of_available ha
    refine ⟨inRange_rule.snapshot sim i r dir now hbase hr ha hdir,
      hs.replace hi (fun j hj => List.getElem?_set_ne (Ne.symm hj)) ?_⟩
    rw [takeSnapshot_replica]
    exact hs.live i r hr hi
  · exact fun sim i ⟨hbase, hs⟩ => ⟨inRange_rule.respond sim i hbase, hs.live, hs.left⟩
  · exact fun sim net ⟨hbase, hs⟩ hnet =>
      ⟨inRange_rule.network sim net hbase hnet, hs.live, hs.left⟩
  · exact fun sim ⟨hbase, hs⟩ => ⟨inRange_rule.clock sim hbase, hs.live, hs.left⟩
  · exact fun sim ⟨hbase, hs⟩ => ⟨inRange_rule.bump sim hbase, hs.live, hs.left⟩
  · rintro now sim i sim' ⟨hbase, hs⟩ hok
    refine ⟨inRange_rule.crash now sim i sim' hbase hok, ?_⟩
    obtain ⟨blocks, hgenesis, hstocked⟩ := hbase.1
    -- the directory has recorded where the replica that crashes stands
    have hboth : Seated (fun r dir => P r.config.id r.pointers ∧ LiveStock blocks r dir)
        (fun r dir => ∀ d ∈ dir, RestoresTo (P r.config.id) d) sim :=
      ⟨fun j r hr hj => ⟨hs.live j r hr hj, hstocked.live j r hr hj⟩, hs.left⟩
    refine (hboth.crash (fun _ r dir keystore hlive d hd => ?_) hok).mono (fun _ _ h => h.1)
      fun _ _ h => h
    obtain ⟨d', hd', rfl⟩ := Option.map_eq_some_iff.mp hd
    have hid : (freshReplica (σ := σ) now r.config keystore).config.id = r.config.id := by
      simp only [freshReplica, Replica.ensureDefaultValidators]
      split <;> rfl
    rw [hid]
    exact ⟨blocks, _, hgenesis, (hlive.2.disk d' hd').stored, hlive.1⟩
  · rintro now sim i sim' ⟨hbase, hs⟩ hok
    refine ⟨inRange_rule.recover now sim i sim' hbase hok,
      hs.recover (fun r keystore dir opened hr hi hdir hopen => ?_) hok⟩
    obtain ⟨hconfig, -, hpool⟩ := openReplica_fields hopen
    have hopened := (hs.left i r hr hi dir hdir).openReplica hopen
    rw [(rejoin_fields now _ hpool dir).1, rejoin_eq, takeSnapshot_replica]
    rw [← hconfig] at hopened
    refine h.rejoin now _ opened (fun s hother => ?_) hopened
    obtain ⟨j, hj, -, hlive⟩ := mem_liveOthers hother
    exact hs.live j s hj hlive
  · exact fun sim i unresponsive sim' ⟨hbase, hs⟩ hok =>
      ⟨inRange_rule.interrupt sim i unresponsive sim' hbase hok, hs.setReplicaUnresponsive hok⟩
  · rintro now sim call replicas ⟨hbase, hs⟩ hlen hreplicas
    obtain ⟨blocks, -, hstocked⟩ := hbase.1
    refine ⟨inRange_rule.configure now sim call replicas hbase hlen hreplicas,
      fun i r' hr' hi => ?_, fun i r' hr' hi => ?_⟩
    · obtain ⟨r, hr, rfl | rfl⟩ := hreplicas i r' hr'
      · exact hs.live i _ hr hi
      · exact h.step (hstocked.live i r hr hi).keyed (hs.live i r hr hi) _
    · obtain ⟨r, hr, rfl | rfl⟩ := hreplicas i r' hr'
      · exact hs.left i _ hr hi
      · rw [step_id]
        exact hs.left i r hr hi

/-- What the rule keeps holds in whatever arises, if it holds of a first start and takes no notice
of names. -/
theorem StandingRule.arises (h : StandingRule σ P) (hfirst : ∀ id, P id ⟨[], none, none, 0⟩)
    (hanyone : ∀ id id' p, P id p → P id' p) (harises : Arises sim) : Stands P sim := by
  induction harises with
  | new now f maxSteps allKeys =>
    refine ⟨fun i r hr _ => ?_, fun i r _ hi => absurd hi (Finset.notMem_empty i)⟩
    simp only [Simulation.new, start, List.getElem?_mapIdx, Option.map_eq_some_iff] at hr
    obtain ⟨ks, -, rfl⟩ := hr
    have hfresh : (freshReplica (σ := σ) now (replicaConfig allKeys.length f i) ks).pointers =
        ⟨[], none, none, 0⟩ := by
      simp only [freshReplica, Replica.ensureDefaultValidators]
      split <;> rfl
    rw [hfresh]
    exact hfirst _
  | restart harises hrestarts ih =>
    obtain ⟨old, maxSteps, blocks, hminted⟩ := harises.minted
    obtain ⟨now, f, maxSteps, allKeys, dirs, -, hdirs, hok⟩ := hrestarts
    obtain ⟨replicas, rfl, -, hslots⟩ := newWithPersistence_slots hok
    refine ⟨fun i r hr _ => ?_, fun i r _ hi => absurd hi (Finset.notMem_empty i)⟩
    obtain ⟨ks, dir, -, hdir, hopened⟩ := hslots i r hr
    rcases hdirs i dir hdir with rfl | hleaves
    · rw [PersistHotStuff.openReplica_empty] at hopened
      cases hopened
      exact hfirst _
    · obtain ⟨old, -, hrestores⟩ := ih.leaves hminted.genesis hminted.stocked hleaves
      exact hanyone _ _ _ (hrestores.openReplica hopened)
  | step op harises ih =>
    obtain ⟨old, maxSteps, blocks, hminted⟩ := harises.minted
    exact (h.traceRule.step
      ⟨⟨⟨blocks, hminted.genesis, hminted.stocked⟩, harises.inRange⟩, ih⟩ op).2

end Standing

section Continuation

variable {σ : Type} [Ed25519] [Sha256] [Bincode LogEntry] [Bincode Snapshot] [Crc32]

/-- A new program over what every replica of the last one has left. -/
def Resumes (earlier sim : Simulation σ) : Prop :=
  ∃ now f maxSteps allKeys dirs, dirs.length = allKeys.length ∧
    (∀ id dir, dirs[id]? = some dir → earlier.leaves id = some dir) ∧
    Simulation.newWithPersistence now f maxSteps allKeys dirs = .ok sim

theorem Resumes.restarts {earlier sim : Simulation σ} (h : Resumes earlier sim) :
    Restarts earlier sim := by
  obtain ⟨now, f, maxSteps, allKeys, dirs, hlen, hdirs, hok⟩ := h
  exact ⟨now, f, maxSteps, allKeys, dirs, hlen, fun id dir hdir => .inr (hdirs id dir hdir), hok⟩

variable [App σ]

/-- What a simulation leads to: operations, and new programs over what it has left. -/
inductive Continues (sim : Simulation σ) : Simulation σ → Prop
  | refl : Continues sim sim
  | step {t : Trace σ} (op : Nat × SimulationOp) : Continues sim t.sim →
      Continues sim (t.step op).sim
  | resume {earlier later : Simulation σ} : Continues sim earlier → Resumes earlier later →
      Continues sim later

theorem Continues.arises {sim sim' : Simulation σ} (h : Continues sim sim') (harises : Arises sim) :
    Arises sim' := by
  induction h with
  | refl => exact harises
  | step op _ ih => exact .step op ih
  | resume _ hresumes ih => exact .restart ih hresumes.restarts

theorem Continues.run {sim : Simulation σ} {t : Trace σ} (h : Continues sim t.sim)
    (ops : List (Nat × SimulationOp)) : Continues sim (run Trace.step t ops).sim :=
  run_preserves (I := fun t : Trace σ => Continues sim t.sim) (fun _ op ht => .step op ht) h ops

variable [LawfulBincode LogEntry] [StrictBincode LogEntry] [LawfulBincode Snapshot]
  {sim sim' : Simulation σ} {P : ReplicaId → Pointers → Prop}

/-- What the rule keeps, it keeps across programs. -/
theorem StandingRule.continues (h : StandingRule σ P) (harises : Arises sim) (hs : Stands P sim)
    (hcontinues : Continues sim sim') : Stands P sim' := by
  induction hcontinues with
  | refl => exact hs
  | step op hcont ih =>
    have harises' := hcont.arises harises
    obtain ⟨old, maxSteps, blocks, hminted⟩ := harises'.minted
    exact (h.traceRule.step
      ⟨⟨⟨blocks, hminted.genesis, hminted.stocked⟩, harises'.inRange⟩, ih⟩ op).2
  | resume hcont hresumes ih =>
    have harises' := hcont.arises harises
    obtain ⟨old, maxSteps, blocks, hminted⟩ := harises'.minted
    obtain ⟨now, f, maxSteps, allKeys, dirs, -, hdirs, hok⟩ := hresumes
    obtain ⟨replicas, rfl, -, hslots⟩ := newWithPersistence_slots hok
    refine ⟨fun i r hr _ => ?_, fun i r _ hi => absurd hi (Finset.notMem_empty i)⟩
    obtain ⟨ks, dir, -, hdir, hopened⟩ := hslots i r hr
    obtain ⟨old, hold, hrestores⟩ :=
      ih.leaves hminted.genesis hminted.stocked (hdirs i dir hdir)
    -- the seat keeps its name
    rw [harises'.ids i old hold] at hrestores
    rw [(openReplica_fields hopened).1]
    exact hrestores.openReplica hopened

end Continuation

section Progress

variable {σ : Type} [Bincode LogEntry] [Crc32]

/-- A rejoin takes back neither commits nor views. -/
theorem extends_synced (now : Nat) (others : List (Replica σ)) {r : Replica σ}
    (hview : r.currentView ≤ u64Max) : r.pointers.Extends (synced now others r).pointers := by
  refine ⟨?_, ?_⟩
  · show r.committedLog.map Block.hash <+: (synced now others r).committedLog.map Block.hash
    rw [synced_committedLog]
    cases others.head? with
    | none => exact List.prefix_rfl
    | some donor => exact isPrefix_adoptLog r donor
  · -- each view change on the way leads to a later view of the range
    refine (synced_preserves (I := fun s : Replica σ =>
      s.currentView ≤ u64Max ∧ r.currentView ≤ s.currentView) (fun s hs => ?_) ⟨hview, le_rfl⟩
      fun donor _ => ?_).2
    · refine ⟨min_le_right _ _, le_min ?_ hview⟩
      exact hs.2.trans (Nat.le_succ _)
    · rw [syncFrom_eq]
      exact ⟨hview, le_rfl⟩

variable [Ed25519] [Sha256] [App σ]

/-- No call takes back commits or views. -/
theorem extends_step {r : Replica σ} (hkeyed : TreeKeyed r.blockTree)
    (hview : r.currentView ≤ u64Max) (c : Nat × Call) :
    r.pointers.Extends (r.step c).pointers := by
  refine ⟨?_, ?_⟩
  · show r.committedLog.map Block.hash <+: (r.step c).committedLog.map Block.hash
    rw [Replica.step_committedLog r hkeyed]
    split
    · rw [List.map_append]
      exact List.prefix_append _ _
    · exact List.prefix_rfl
  · show r.currentView ≤ (r.step c).currentView
    rw [Replica.step_currentView]
    split
    · exact le_min (Nat.le_succ _) hview
    · exact le_rfl

/-- To have got at least as far as certain pointers, in the range of views, is kept. -/
theorem standingRule_extends (base : ReplicaId → Pointers → Prop) :
    StandingRule σ fun id p => (∀ q, base id q → q.Extends p) ∧ p.currentView ≤ u64Max where
  call _ c hkeyed := fun ⟨hbase, hview⟩ =>
    ⟨fun q hq => (hbase q hq).trans (extends_step hkeyed hview c),
      Replica.step_currentView_le hview c⟩
  rejoin now others _ _ := fun ⟨hbase, hview⟩ =>
    ⟨fun q hq => (hbase q hq).trans (extends_synced now others hview),
      currentView_synced_le now others hview⟩

/-- Calls commit no hash twice and point to the last one. -/
theorem inOrder_step {r : Replica σ} (h : r.pointers.InOrder) (c : Nat × Call) :
    (r.step c).pointers.InOrder := by
  obtain ⟨now, call⟩ := c
  by_cases hcommit : call = .commitAll
  · subst hcommit
    have hfuel : r.uncommitted.length ≤ r.blockTree.length := by
      rw [← OrdMap.length_values]
      exact List.length_filter_le ..
    obtain ⟨appended, hdrained⟩ := Replica.exists_drained now h.distinct hfuel
    refine ⟨hdrained.once, ?_⟩
    show (r.commitAll now).committedUpTo = ((r.commitAll now).committedLog.map Block.hash).getLast?
    have hupTo : r.committedUpTo = (r.committedLog.map Block.hash).getLast? := h.upTo
    rw [Replica.commitAll, hdrained.upTo, hdrained.log, hupTo, List.map_append,
      List.getLast?_append, List.getLast?_map, List.getLast?_map]
  · have hsame := Replica.step_frame (fun s : Replica σ => (s.committedLog, s.committedUpTo))
      (by intros; rfl) r (c := (now, call)) hcommit
    obtain ⟨hlog, hupTo⟩ := Prod.mk.inj hsame
    refine ⟨?_, ?_⟩
    · show ((r.step (now, call)).committedLog.map Block.hash).Nodup
      rw [hlog]
      exact h.distinct
    · show (r.step (now, call)).committedUpTo =
        ((r.step (now, call)).committedLog.map Block.hash).getLast?
      rw [hlog, hupTo]
      exact h.upTo

omit [Ed25519] [Sha256] [App σ] in
/-- A log adopted from a replica in order is in order. -/
theorem inOrder_synced (now : Nat) {others : List (Replica σ)} {r : Replica σ}
    (hothers : ∀ s ∈ others, s.pointers.InOrder) (h : r.pointers.InOrder) :
    (synced now others r).pointers.InOrder := by
  refine synced_preserves (I := fun s : Replica σ => s.pointers.InOrder)
    (fun _ hs => ⟨hs.distinct, hs.upTo⟩) h fun donor hdonor => ?_
  have hadopted : (adoptLog r donor).pointers.InOrder := by
    have hdonor := hothers donor (List.mem_of_head? hdonor)
    rw [adoptLog]
    split
    · exact ⟨hdonor.distinct, hdonor.upTo⟩
    · exact h
  rw [syncFrom_eq]
  exact ⟨hadopted.distinct, hadopted.upTo⟩

theorem standingRule_inOrder : StandingRule σ fun _ p => p.InOrder where
  call _ c _ h := inOrder_step h c
  rejoin now _ _ hothers h := inOrder_synced now hothers h

end Progress

section Survival

variable {σ : Type} [Ed25519] [Sha256] [Bincode LogEntry] [Bincode Snapshot] [Crc32] [App σ]
  [LawfulBincode LogEntry] [StrictBincode LogEntry] [LawfulBincode Snapshot]
  {sim sim' : Simulation σ}

/-- Whatever happens to a simulation, and over however many programs, what a replica has committed
is the beginning of what the replica in its seat has committed when it is live later, and it is in
no earlier view. -/
theorem Continues.extends (h : Continues sim sim') (harises : Arises sim) {i : Nat}
    {r r' : Replica σ} (hr : sim.replicas[i]? = some r) (hi : i ∉ sim.crashedReplicas)
    (hr' : sim'.replicas[i]? = some r') (hi' : i ∉ sim'.crashedReplicas) :
    r.pointers.Extends r'.pointers := by
  have hstart : Stands (fun id p => (∀ q, (∃ s, sim.replicas[id]? = some s ∧
      id ∉ sim.crashedReplicas ∧ s.pointers = q) → q.Extends p) ∧ p.currentView ≤ u64Max) sim := by
    refine ⟨fun j s hs hj => ⟨?_, harises.inRange.live j s hs hj⟩, fun j s hs hj d hd => ?_⟩
    · rintro q ⟨t, ht, -, rfl⟩
      rw [harises.ids j s hs, hs, Option.some.injEq] at ht
      rw [ht]
      exact .refl _
    · obtain ⟨stored, p, hgenesis, hknows, hview⟩ := harises.inRange.left j s hs hj d hd
      refine ⟨stored, p, hgenesis, hknows, fun q hq => ?_, hview⟩
      obtain ⟨t, -, hlive, -⟩ := hq
      rw [harises.ids j s hs] at hlive
      exact absurd hj hlive
  have hend := (standingRule_extends _).continues harises hstart h
  refine (hend.live i r' hr' hi').1 _ ⟨r, ?_, ?_, rfl⟩
  · rwa [(h.arises harises).ids i r' hr']
  · rwa [(h.arises harises).ids i r' hr']

/-- Every log that arises is in order. -/
theorem Arises.inOrder (harises : Arises sim) : Stands (fun _ p => p.InOrder) sim :=
  standingRule_inOrder.arises (fun _ => ⟨List.nodup_nil, rfl⟩) (fun _ _ _ h => h) harises

/-- Whatever arises, no replica that is live has committed a hash twice, and it knows which one it
has committed last. -/
theorem Arises.log_inOrder (harises : Arises sim) {i : Nat} {r : Replica σ}
    (hr : sim.replicas[i]? = some r) (hi : i ∉ sim.crashedReplicas) :
    (r.committedLog.map Block.hash).Nodup ∧
      r.committedUpTo = r.committedLog.getLast?.map Block.hash := by
  obtain ⟨hdistinct, hupTo⟩ := harises.inOrder.live i r hr hi
  exact ⟨hdistinct, hupTo.trans List.getLast?_map⟩

end Survival

section Samples

open Sample Trace

/-- Four sample replicas after three rounds, when the program ends. -/
def stopped : Simulation NoOpApp :=
  (run Trace.step fourDurable [(1, .runOneRound), (2, .runOneRound), (3, .runOneRound)]).sim

/-- What they leave. -/
def stoppedDirs : List DataDir :=
  (List.range 4).map fun id => (stopped.leaves id).getD DataDir.empty

/-- In the next program replica 2 is crashed and recovered before a round. -/
def resumedOps : List (Nat × SimulationOp) :=
  [(10, .crashReplica 2), (11, .recoverReplica 2), (12, .runOneRound)]

/-- What replica 3 has committed, while it is live. -/
def liveLog (sim : Simulation NoOpApp) : Option (List Hash) :=
  if 3 ∈ sim.crashedReplicas then none else sim.replicas[3]?.map fun r => r.pointers.committed

theorem liveLog_eq_some {sim : Simulation NoOpApp} {log : List Hash} (h : liveLog sim = some log) :
    3 ∉ sim.crashedReplicas ∧ ∃ r, sim.replicas[3]? = some r ∧ r.pointers.committed = log := by
  rw [liveLog] at h
  split at h
  · cases h
  · next hlive => exact ⟨hlive, Option.map_eq_some_iff.mp h⟩

theorem stopped_arises : stopped.Arises := fourDurable_start.starting.arises.run _

/-- They leave all four. -/
theorem leaves_of_stoppedDirs {id : Nat} {dir : DataDir} (hdir : stoppedDirs[id]? = some dir) :
    stopped.leaves id = some dir := by
  have hleaves : ∀ id < 4, (stopped.leaves id).isSome = true := by decide +kernel
  rw [stoppedDirs, List.getElem?_map] at hdir
  obtain ⟨id', hid, rfl⟩ := Option.map_eq_some_iff.mp hdir
  obtain ⟨hlt, rfl⟩ := List.getElem?_eq_some_iff.mp hid
  rw [List.length_range] at hlt
  rw [List.getElem_range]
  obtain ⟨left, hleft⟩ := Option.isSome_iff_exists.mp (hleaves id hlt)
  rw [hleft, Option.getD_some]

theorem length_stoppedDirs : stoppedDirs.length = (sampleKeys 4).length := by
  rw [stoppedDirs, sampleKeys, List.length_map, List.length_map]

/-- A program over what they leave goes on to commit two more blocks. -/
theorem exists_resumed :
    ∃ later, Continues stopped later ∧ liveLog later = some [1, 2, 3] := by
  have hlogs : (Simulation.newWithPersistence 9 1 20 (sampleKeys 4) stoppedDirs).map
      (fun sim => liveLog (run Trace.step ⟨sim, History.genesis⟩ resumedOps).sim) =
        .ok (some [1, 2, 3]) := by decide +kernel
  obtain ⟨sim, hok, hlog⟩ : ∃ sim,
      Simulation.newWithPersistence 9 1 20 (sampleKeys 4) stoppedDirs = .ok sim ∧
        liveLog (run Trace.step ⟨sim, History.genesis⟩ resumedOps).sim = some [1, 2, 3] := by
    generalize Simulation.newWithPersistence 9 1 20 (sampleKeys 4) stoppedDirs = made at hlogs
    cases made with
    | error e => cases hlogs
    | ok sim => exact ⟨sim, rfl, Except.ok.inj hlogs⟩
  have hresumes : Resumes stopped sim := ⟨9, 1, 20, sampleKeys 4, stoppedDirs,
    length_stoppedDirs, fun _ _ hdir => leaves_of_stoppedDirs hdir, hok⟩
  exact ⟨_, (Continues.refl.resume hresumes).run resumedOps, hlog⟩

/-- The commit of the first program begins the log of the second. -/
theorem extends_resumed :
    ∃ later r r', Continues stopped later ∧ stopped.replicas[3]? = some r ∧
      later.replicas[3]? = some r' ∧ r.pointers.committed = [1] ∧
      r'.pointers.committed = [1, 2, 3] ∧ r.pointers.Extends r'.pointers := by
  have hbefore : liveLog stopped = some [1] := by decide +kernel
  obtain ⟨hlive, r, hr, hlog⟩ := liveLog_eq_some hbefore
  obtain ⟨later, hcontinues, hafter⟩ := exists_resumed
  obtain ⟨hlive', r', hr', hlog'⟩ := liveLog_eq_some hafter
  exact ⟨later, r, r', hcontinues, hr, hr', hlog, hlog',
    hcontinues.extends stopped_arises hr hlive hr' hlive'⟩

theorem log_inOrder_resumed :
    ∃ later r, Continues stopped later ∧ later.replicas[3]? = some r ∧
      r.pointers.committed = [1, 2, 3] ∧ (r.committedLog.map Block.hash).Nodup ∧
      r.committedUpTo = r.committedLog.getLast?.map Block.hash := by
  obtain ⟨later, hcontinues, hafter⟩ := exists_resumed
  obtain ⟨hlive, r, hr, hlog⟩ := liveLog_eq_some hafter
  exact ⟨later, r, hcontinues, hr, hlog, (hcontinues.arises stopped_arises).log_inOrder hr hlive⟩

end Samples

end Simulation

end PersistHotStuff
