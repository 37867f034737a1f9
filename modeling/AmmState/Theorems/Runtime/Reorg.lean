import AmmState.Runtime.Reorg

/-! A branch replacement that is admitted without a refresh drops only blocks that no tracked pool or watcher read from. -/

namespace AmmState.Reorg

/-! ### Branches -/

/-- The block follows the point. -/
def Extends (point : AmmStatePoint) (block : BlockRef) : Prop :=
  block.number = point.blockNumber + 1 ∧ block.parentHash = some point.blockHash

namespace RecordedBlock

def block (r : RecordedBlock) : BlockRef := r.batch.block

def point (r : RecordedBlock) : AmmStatePoint := ⟨r.batch.chainId, r.block.number, r.block.hash⟩

def entry (r : RecordedBlock) : Entry := ⟨r.point, hasLogs r.batch⟩

/-- A log of the block that its batch carries. -/
def Carries (r : RecordedBlock) (log : RpcLog) : Prop := ∃ record ∈ r.batch.records, recordLog record = some log

end RecordedBlock

/-- Consecutive blocks from the point on, each naming the one before as its parent. -/
def Linked : AmmStatePoint → List RecordedBlock → Prop
  | _, [] => True
  | point, r :: branch => Extends point r.block ∧ Linked r.point branch

/-- The point that the branch ends in. -/
def tip (baseline : AmmStatePoint) (branch : List RecordedBlock) : AmmStatePoint :=
  branch.foldl (fun _ r => r.point) baseline

/-- The untrimmed history of a branch. -/
def chain (baseline : AmmStatePoint) (branch : List RecordedBlock) : List Entry :=
  ⟨baseline, true⟩ :: branch.map RecordedBlock.entry

/-- The state after the branch: each block's logs that the interests cover, in order. -/
def replay {S : Type} (interests : RpcLog → Bool) (consume : S → RpcLog → S) (s : S) (branch : List RecordedBlock) : S :=
  branch.foldl (fun s r => (r.logs.filter interests).foldl consume s) s

section Branch
variable {baseline : AmmStatePoint} {branch : List RecordedBlock}

theorem Linked.append_singleton {r : RecordedBlock} :
    ∀ {baseline : AmmStatePoint} {branch : List RecordedBlock}, Linked baseline branch →
      Extends (tip baseline branch) r.block → Linked baseline (branch ++ [r])
  | _, [], _, h => ⟨h, trivial⟩
  | _, _ :: _, h, hr => ⟨h.1, h.2.append_singleton hr⟩

theorem Linked.take : ∀ {baseline : AmmStatePoint} {branch : List RecordedBlock} (k : Nat),
    Linked baseline branch → Linked baseline (branch.take k)
  | _, [], 0, _ => trivial
  | _, [], _ + 1, _ => trivial
  | _, _ :: _, 0, _ => trivial
  | _, _ :: _, k + 1, h => ⟨h.1, Linked.take k h.2⟩

/-- On a linked branch, the blocks below a height are a prefix of known length. -/
theorem Linked.takeWhile_below (h : Linked baseline branch) {height k : Nat} (hk : height = baseline.blockNumber + 1 + k) :
    branch.takeWhile (fun r => r.batch.block.number < height) = branch.take k := by
  induction branch generalizing baseline k with
  | nil => simp
  | cons r branch ih =>
    obtain ⟨⟨hnumber, _⟩, hlinked⟩ := h
    replace hnumber : r.batch.block.number = baseline.blockNumber + 1 := hnumber
    cases k with
    | zero =>
      have hnot : ¬ r.batch.block.number < height := by omega
      rw [List.takeWhile_cons_of_neg (by simpa using hnot), List.take_zero]
    | succ k =>
      have hlt : r.batch.block.number < height := by omega
      have hheight : height = r.point.blockNumber + 1 + k := by
        rw [show r.point.blockNumber = baseline.blockNumber + 1 from hnumber]
        omega
      rw [List.takeWhile_cons_of_pos (by simpa using hlt), List.take_succ_cons, ih hlinked hheight]

theorem chain_getElem? {k : Nat} {entry : Entry} (h : (chain baseline branch)[k]? = some entry) :
    entry.point = tip baseline (branch.take k) := by
  induction branch generalizing baseline k with
  | nil =>
    cases k with
    | zero =>
      cases h
      rfl
    | succ k => cases h
  | cons r branch ih =>
    cases k with
    | zero =>
      cases h
      rfl
    | succ k =>
      cases k with
      | zero =>
        cases h
        rfl
      | succ k => exact @ih r.point (k + 1) h

theorem Linked.tip_blockNumber (h : Linked baseline branch) :
    (tip baseline branch).blockNumber = baseline.blockNumber + branch.length := by
  induction branch generalizing baseline with
  | nil => rfl
  | cons r branch ih =>
    have hnumber : r.point.blockNumber = baseline.blockNumber + 1 := h.1.1
    show (tip r.point branch).blockNumber = _
    rw [ih h.2, hnumber, List.length_cons]
    omega

theorem chain_append {r : RecordedBlock} : chain baseline (branch ++ [r]) = chain baseline branch ++ [r.entry] := by
  simp [chain]

theorem take_chain (k : Nat) : (chain baseline branch).take (k + 1) = chain baseline (branch.take k) := by
  simp [chain]

theorem drop_chain (baseline : AmmStatePoint) (branch : List RecordedBlock) (k : Nat) :
    (chain baseline branch).drop (k + 1) = (branch.drop k).map RecordedBlock.entry := by
  simp [chain]

theorem replay_append {S : Type} {interests : RpcLog → Bool} {consume : S → RpcLog → S} (s : S)
    (kept dropped : List RecordedBlock) :
    replay interests consume s (kept ++ dropped) = replay interests consume (replay interests consume s kept) dropped :=
  List.foldl_append

/-- Blocks without a log of interest leave the state alone. -/
theorem replay_eq {S : Type} {interests : RpcLog → Bool} {consume : S → RpcLog → S} (s : S) {dropped : List RecordedBlock}
    (h : ∀ r ∈ dropped, ∀ log ∈ r.logs, interests log = false) : replay interests consume s dropped = s := by
  induction dropped with
  | nil => rfl
  | cons r dropped ih =>
    have hempty : r.logs.filter interests = [] :=
      List.filter_eq_nil_iff.mpr fun log hlog => by simp [h r (List.mem_cons_self ..) log hlog]
    show replay interests consume ((r.logs.filter interests).foldl consume s) dropped = s
    rw [hempty]
    exact ih fun r' hr' => h r' (List.mem_cons_of_mem _ hr')

end Branch

/-! ### The invariant -/

namespace AmmRuntimeActor

/-- Every state of the actor: commits and ingests in any order. A batch carries every log of its block that the interests
    of the time cover, which is what a reconciled source promises of a complete block. -/
inductive Reachable : AmmRuntimeActor → Prop
  | start (point : AmmStatePoint) (interests : RpcLog → Bool) : Reachable (start point interests)
  | publishCommit {a : AmmRuntimeActor} (point : AmmStatePoint) (interestRevision : Nat) (interests : RpcLog → Bool)
      (subscriber : Bool) : Reachable a → Reachable (a.publishCommit point interestRevision interests subscriber)
  | ingest {Update Resync : Type} {a : AmmRuntimeActor} (batch : AmmCanonicalBatch) (subscribed : Bool)
      (answers : IngestAnswers Update Resync) : Reachable a →
      (∀ log ∈ answers.logs, a.interests log = true → (RecordedBlock.mk batch answers.logs).Carries log) →
      Reachable (a.ingest batch subscribed answers).1

/-- The history is the end of a linked chain that starts at the last reset. -/
structure Chained (a : AmmRuntimeActor) : Prop where
  linked : Linked a.baseline a.branch
  suffix : a.eventFreeReorgHistory.entries <:+ chain a.baseline a.branch
  bounded : a.eventFreeReorgHistory.entries.length ≤ retainedBlocks
  point : a.point = tip a.baseline a.branch

structure Inv (a : AmmRuntimeActor) : Prop extends Chained a where
  nonempty : a.eventFreeReorgHistory.entries ≠ []
  complete : ∀ r ∈ a.branch, ∀ log ∈ r.logs, a.interests log = true → r.Carries log

end AmmRuntimeActor

theorem retained_pos : 0 < retainedBlocks := by decide

theorem extends_of_isParent {block : BlockRef} {entry : Entry} (h : EventFreeReorgHistory.isParent block entry = true) :
    Extends entry.point block := by
  unfold EventFreeReorgHistory.isParent at h
  obtain ⟨hnumber, hhash⟩ := Bool.and_eq_true_iff.mp h
  split_ifs at hnumber with hlt
  · exact ⟨(Option.some.inj (beq_iff_eq.mp hnumber)).symm, (beq_iff_eq.mp hhash).symm⟩
  · cases hnumber

namespace AmmRuntimeActor
variable {a : AmmRuntimeActor}

/-- The parent of a block in the history is a place on the branch: the kept part ends there, and the entries after it are
    those of the dropped part. -/
theorem Inv.parent (h : Inv a) {block : BlockRef} {parent : Nat}
    (hparent : a.eventFreeReorgHistory.parentIndex block = some parent) :
    ∃ k ≤ a.branch.length, Extends (tip a.baseline (a.branch.take k)) block ∧
      a.eventFreeReorgHistory.entries.drop (parent + 1) = (a.branch.drop k).map RecordedBlock.entry ∧
      a.eventFreeReorgHistory.entries.take (parent + 1) <:+ chain a.baseline (a.branch.take k) := by
  obtain ⟨trimmed, htrimmed⟩ := h.suffix
  obtain ⟨hlt, hisParent, _⟩ := List.findIdx?_eq_some_iff_getElem.mp hparent
  set entries := a.eventFreeReorgHistory.entries with hentries
  have hget : (chain a.baseline a.branch)[trimmed.length + parent]? = some entries[parent] := by
    rw [← htrimmed, List.getElem?_append_right (by omega), Nat.add_sub_cancel_left, List.getElem?_eq_getElem hlt]
  have hlength : trimmed.length + entries.length = a.branch.length + 1 := by
    rw [← List.length_append, htrimmed]
    simp [chain]
  refine ⟨trimmed.length + parent, by omega, ?_, ?_, ?_⟩
  · rw [← chain_getElem? hget]
    exact extends_of_isParent hisParent
  · have hdrop := drop_chain a.baseline a.branch (trimmed.length + parent)
    rw [← htrimmed, List.drop_append, List.drop_of_length_le (l := trimmed) (by omega), List.nil_append] at hdrop
    rw [← hdrop]
    congr 1
    omega
  · rw [← take_chain, ← htrimmed, List.take_append, List.take_of_length_le (l := trimmed) (by omega)]
    refine ⟨trimmed, ?_⟩
    congr 2
    omega

theorem Inv.start (point : AmmStatePoint) (interests : RpcLog → Bool) : Inv (start point interests) where
  linked := trivial
  suffix := List.suffix_refl _
  bounded := retained_pos
  point := rfl
  nonempty := List.cons_ne_nil _ _
  complete := nofun

theorem Inv.publishCommit (point : AmmStatePoint) (interestRevision : Nat) (interests : RpcLog → Bool)
    (subscriber : Bool) : Inv (a.publishCommit point interestRevision interests subscriber) where
  linked := trivial
  suffix := List.suffix_refl _
  bounded := retained_pos
  point := rfl
  nonempty := List.cons_ne_nil _ _
  complete := nofun

theorem Inv.markUntrusted (h : Inv a) : Inv a.markUntrusted :=
  ⟨⟨h.linked, h.suffix, h.bounded, h.point⟩, h.nonempty, h.complete⟩

/-- The branch after a block whose parent is retained. -/
theorem Inv.takeWhile_below (h : Inv a) {block : BlockRef} {k : Nat} (hk : k ≤ a.branch.length)
    (hextends : Extends (tip a.baseline (a.branch.take k)) block) :
    a.branch.takeWhile (fun r => r.batch.block.number < block.number) = a.branch.take k := by
  refine h.linked.takeWhile_below ?_
  rw [hextends.1, (Linked.take k h.linked).tip_blockNumber, List.length_take, Nat.min_eq_left hk]
  omega

theorem Inv.recordBlock_branch (h : Inv a) {batch : AmmCanonicalBatch} {logs : List RpcLog} {parent k : Nat}
    (hparent : a.eventFreeReorgHistory.parentIndex batch.block = some parent) (hk : k ≤ a.branch.length)
    (hextends : Extends (tip a.baseline (a.branch.take k)) batch.block) :
    (a.recordBlock batch logs).baseline = a.baseline ∧
      (a.recordBlock batch logs).branch = a.branch.take k ++ [⟨batch, logs⟩] := by
  unfold AmmRuntimeActor.recordBlock
  simp only [hparent, Option.isSome_some, if_true, h.takeWhile_below hk hextends, and_self]

theorem Inv.recordBlock (h : Inv a) {batch : AmmCanonicalBatch} {logs : List RpcLog}
    (hcomplete : ∀ log ∈ logs, a.interests log = true → (RecordedBlock.mk batch logs).Carries log) :
    Inv (a.recordBlock batch logs) := by
  unfold AmmRuntimeActor.recordBlock EventFreeReorgHistory.record
  cases hparent : a.eventFreeReorgHistory.parentIndex batch.block with
  | none =>
    exact {
      linked := trivial
      suffix := List.suffix_refl _
      bounded := retained_pos
      point := rfl
      nonempty := List.cons_ne_nil _ _
      complete := nofun }
  | some parent =>
    obtain ⟨k, hk, hextends, _, hkept⟩ := h.parent hparent
    have hbranch := h.takeWhile_below hk hextends
    simp only [Option.isSome_some, if_true, hbranch]
    set entries := a.eventFreeReorgHistory.entries.take (parent + 1) ++
      [⟨⟨batch.chainId, batch.block.number, batch.block.hash⟩, hasLogs batch⟩] with hentries
    have hsuffix : entries <:+ chain a.baseline (a.branch.take k ++ [⟨batch, logs⟩]) := by
      rw [chain_append]
      obtain ⟨trimmed, htrimmed⟩ := hkept
      exact ⟨trimmed, by rw [hentries, ← List.append_assoc, htrimmed]; rfl⟩
    have hretained : (entries.drop (entries.length - retainedBlocks)).length = min entries.length retainedBlocks := by
      rw [List.length_drop]
      omega
    exact {
      linked := (Linked.take k h.linked).append_singleton hextends
      suffix := (List.drop_suffix _ _).trans hsuffix
      bounded := by
        rw [hretained]
        exact Nat.min_le_right ..
      point := by simp [tip, RecordedBlock.point, RecordedBlock.block]
      nonempty := by
        refine List.ne_nil_of_length_pos ?_
        rw [hretained]
        have : 0 < entries.length := by simp [hentries]
        have := retained_pos
        omega
      complete := by
        intro r hr
        rcases List.mem_append.mp hr with hr | hr
        · exact h.complete r (List.mem_of_mem_take hr)
        · rw [List.mem_singleton.mp hr]
          exact hcomplete }

/-- An ingest leaves the actor, distrusts it, or records the block. -/
theorem ingest_cases {Update Resync : Type} (a : AmmRuntimeActor) (batch : AmmCanonicalBatch) (subscribed : Bool)
    (answers : IngestAnswers Update Resync) :
    (∃ error, a.ingest batch subscribed answers = (a, .error error)) ∨
    (∃ error, a.ingest batch subscribed answers = (a.markUntrusted, .error error)) ∨
    ∃ reports, answers.engine = .ok reports ∧ a.ingest batch subscribed answers =
      (a.recordBlock batch answers.logs, .ok (requiresFullRefresh reports (a.eventFreeReorg batch))) := by
  unfold AmmRuntimeActor.ingest
  split
  · exact .inl ⟨_, rfl⟩
  split
  · exact .inl ⟨_, rfl⟩
  split
  · exact .inl ⟨_, rfl⟩
  split
  · exact .inl ⟨_, rfl⟩
  split
  · exact .inl ⟨_, rfl⟩
  cases answers.reserve with
  | some error => exact .inl ⟨_, rfl⟩
  | none =>
    cases answers.engine with
    | error message => exact .inr (.inl ⟨_, rfl⟩)
    | ok reports =>
      dsimp only
      cases errorMessage reports with
      | some message => exact .inr (.inl ⟨_, rfl⟩)
      | none =>
        dsimp only
        split
        · exact .inr (.inl ⟨_, rfl⟩)
        cases answers.publication with
        | some error => exact .inr (.inl ⟨_, rfl⟩)
        | none => exact .inr (.inr ⟨reports, rfl, rfl⟩)

theorem Reachable.inv (h : Reachable a) : Inv a := by
  induction h with
  | start point interests => exact Inv.start point interests
  | publishCommit point interestRevision interests subscriber _ ih =>
    exact Inv.publishCommit point interestRevision interests subscriber
  | ingest batch subscribed answers _ hcomplete ih =>
    rename_i a _
    rcases a.ingest_cases batch subscribed answers with ⟨_, hsame⟩ | ⟨_, huntrusted⟩ | ⟨_, _, hrecorded⟩
    · rw [hsame]
      exact ih
    · rw [huntrusted]
      exact ih.markUntrusted
    · rw [hrecorded]
      exact ih.recordBlock hcomplete

end AmmRuntimeActor

/-! ### Admission -/

/-- What a verified proof says of the report. -/
theorem verifyEventFreeReorg_spec {Update Resync : Type} {reports : List (ReactiveReport Update Resync)}
    {proof : List BlockRef} (h : verifyEventFreeReorg reports proof = true) :
    proof ≠ [] ∧ ∃ reorg, reports.filterMap ReactiveReport.reorg? = [reorg] ∧
      reorg.droppedBlocks.map (fun block => (block.number, block.hash)) =
        proof.map (fun block => (block.number, block.hash)) ∧
      ∀ input ∈ reorg.droppedInputs, input.isBlock = true := by
  unfold verifyEventFreeReorg at h
  split at h
  · cases h
  · rename_i hproof
    refine ⟨by simpa using hproof, ?_⟩
    split at h
    · rename_i reorg hreorg
      simp only [Bool.and_eq_true, beq_iff_eq] at h
      obtain ⟨⟨⟨⟨⟨hlength, hzip⟩, hinputs⟩, _⟩, _⟩, _⟩ := h
      refine ⟨reorg, hreorg, ?_, List.all_eq_true.mp hinputs⟩
      refine List.ext_getElem (by simpa using hlength) fun i hi hi' => ?_
      have hlt : i < (reorg.droppedBlocks.zip proof).length := by
        rw [List.length_map] at hi hi'
        rw [List.length_zip]
        exact Nat.lt_min.mpr ⟨hi, hi'⟩
      have hpair := List.all_eq_true.mp hzip _ (List.getElem_mem hlt)
      simp only [List.getElem_zip, Bool.and_eq_true, beq_iff_eq] at hpair
      rw [List.getElem_map, List.getElem_map, hpair.1, hpair.2]
    · cases h

/-- A proof that is not empty names the entries after the parent, none of which had logs. -/
theorem EventFreeReorgHistory.replacementProof_spec {history : EventFreeReorgHistory} {block : BlockRef} {hasLogs : Bool}
    (h : history.replacementProof block hasLogs ≠ []) :
    ∃ parent, history.parentIndex block = some parent ∧
      (∀ entry ∈ history.entries.drop (parent + 1), entry.hasLogs = false) ∧
      history.replacementProof block hasLogs = (history.entries.drop (parent + 1)).map
        (fun entry => ⟨entry.point.blockNumber, entry.point.blockHash, none, none⟩) := by
  unfold replacementProof at h ⊢
  split_ifs at h ⊢ with hlogs
  · exact absurd rfl h
  · cases hparent : history.parentIndex block with
    | none =>
      rw [hparent] at h
      exact absurd rfl h
    | some parent =>
      simp only [hparent] at h
      refine ⟨parent, rfl, ?_⟩
      dsimp only
      split_ifs at h ⊢ with hany
      · exact absurd rfl h
      · exact ⟨by simpa using hany, rfl⟩

/-- A batch without event references carries only logs with a zero transaction hash. -/
theorem transactionHash_of_not_hasLogs {batch : AmmCanonicalBatch} (h : hasLogs batch = false)
    {record : ReactiveInputRecord} (hrecord : record ∈ batch.records) {log : RpcLog} (hlog : recordLog record = some log) :
    log.transactionHash = some 0 := by
  obtain ⟨log', hlog', hidentity⟩ := batch.identified record hrecord
  obtain rfl : log = log' := Option.some.inj (hlog.symm.trans hlog')
  have hrefs : ammEventRefs batch.records = [] := by simpa [hasLogs] using h
  have hnone := List.filterMap_eq_nil_iff.mp hrefs record hrecord
  unfold logIdentity at hidentity
  cases htransaction : log.transactionHash with
  | none => simp [htransaction] at hidentity
  | some transactionHash =>
    cases hindex : log.logIndex with
    | none => simp [hindex, htransaction] at hidentity
    | some logIndex =>
      have hzero : transactionHash = 0 := by simpa [hlog, htransaction, hindex] using hnone
      rw [hzero]

/-- What the reactive engine reports of a branch that it drops, for the logs that event references leave out: a consumed
    log without a transaction hash is among the dropped inputs of its block's reorg. -/
def ListsUnreferenced {Update Resync : Type} (a : AmmRuntimeActor) (reports : List (ReactiveReport Update Resync)) : Prop :=
  ∀ reorg, .reorg reorg ∈ reports → ∀ r ∈ a.branch,
    (r.block.number, r.block.hash) ∈ reorg.droppedBlocks.map (fun block => (block.number, block.hash)) →
    ∀ log ∈ r.logs, a.interests log = true → log.transactionHash = some 0 → .log log ∈ reorg.droppedInputs

/-- What an admitted replacement leaves of the branch: the dropped blocks are the recorded ones after the parent, nothing
    in them was of interest, and the state is the one that a replay of the kept blocks gives. -/
structure Admitted {Update Resync : Type} (a : AmmRuntimeActor) (block : BlockRef) (reorg : ReorgReport Update Resync)
    (kept dropped : List RecordedBlock) : Prop where
  branch : a.branch = kept ++ dropped
  nonempty : dropped ≠ []
  parent : Extends (tip a.baseline kept) block
  reported : reorg.droppedBlocks.map (fun block => (block.number, block.hash)) =
    dropped.map (fun r => (r.block.number, r.block.hash))
  untouched : ∀ r ∈ dropped, ∀ log ∈ r.logs, a.interests log = false
  replay : ∀ {S : Type} (consume : S → RpcLog → S) (s : S),
    replay a.interests consume s a.branch = replay a.interests consume s kept

namespace AmmRuntimeActor
variable {a : AmmRuntimeActor} {Update Resync : Type}

theorem Inv.admitted (h : Inv a) {batch : AmmCanonicalBatch} {reports : List (ReactiveReport Update Resync)}
    (hverified : verifyEventFreeReorg reports (a.eventFreeReorg batch) = true) (hlists : ListsUnreferenced a reports) :
    ∃ reorg, reports.filterMap ReactiveReport.reorg? = [reorg] ∧
      ∃ kept dropped, Admitted a batch.block reorg kept dropped ∧ ∀ logs,
        (a.recordBlock batch logs).baseline = a.baseline ∧
        (a.recordBlock batch logs).branch = kept ++ [⟨batch, logs⟩] := by
  obtain ⟨hproof, reorg, hreorg, hblocks, hinputs⟩ := verifyEventFreeReorg_spec hverified
  obtain ⟨parent, hparent, hfree, heq⟩ := EventFreeReorgHistory.replacementProof_spec hproof
  obtain ⟨k, hk, hextends, hdropped, _⟩ := h.parent hparent
  rw [hdropped] at hfree
  have hreported : reorg.droppedBlocks.map (fun block => (block.number, block.hash)) =
      (a.branch.drop k).map (fun r => (r.block.number, r.block.hash)) := by
    rw [hblocks, eventFreeReorg, heq, hdropped, List.map_map, List.map_map]
    rfl
  have hmem : ReactiveReport.reorg reorg ∈ reports := by
    have hin : reorg ∈ reports.filterMap ReactiveReport.reorg? := by simp [hreorg]
    obtain ⟨report, hreport, hsome⟩ := List.mem_filterMap.mp hin
    cases report with
    | reorg report =>
      cases hsome
      exact hreport
    | missedBlockRange first last => cases hsome
    | error message => cases hsome
    | other => cases hsome
  have huntouched : ∀ r ∈ a.branch.drop k, ∀ log ∈ r.logs, a.interests log = false := by
    intro r hr log hlog
    have hbranch := List.mem_of_mem_drop hr
    by_contra hconsumed
    have htrue : a.interests log = true := by simpa using hconsumed
    -- The batch carries the log, so its transaction hash is zero, and the engine would have listed it.
    obtain ⟨record, hrecord, hcarried⟩ := h.complete r hbranch log hlog htrue
    have hzero := transactionHash_of_not_hasLogs (hfree r.entry (List.mem_map_of_mem hr)) hrecord hcarried
    have hnamed : (r.block.number, r.block.hash) ∈ reorg.droppedBlocks.map (fun block => (block.number, block.hash)) := by
      rw [hreported]
      exact List.mem_map_of_mem (f := fun r : RecordedBlock => (r.block.number, r.block.hash)) hr
    cases hinputs _ (hlists reorg hmem r hbranch hnamed log hlog htrue hzero)
  refine ⟨reorg, hreorg, a.branch.take k, a.branch.drop k, ?_, fun logs => h.recordBlock_branch hparent hk hextends⟩
  exact {
    branch := (List.take_append_drop k _).symm
    nonempty := by
      intro hnil
      rw [hnil] at hdropped
      rw [eventFreeReorg, heq, hdropped] at hproof
      exact hproof rfl
    parent := hextends
    reported := hreported
    untouched := huntouched
    replay := by
      intro S consume s
      conv_lhs => rw [← List.take_append_drop k a.branch]
      rw [replay_append, replay_eq _ huntouched] }

theorem verified_of_requiresFullRefresh {reports : List (ReactiveReport Update Resync)} {proof : List BlockRef}
    {reorg : ReorgReport Update Resync} (hreorg : .reorg reorg ∈ reports) (h : requiresFullRefresh reports proof = false) :
    verifyEventFreeReorg reports proof = true := by
  have := List.any_eq_false.mp h _ hreorg
  simpa using this

/-- In every state the history is the end of a linked chain from the last reset, at most as long as it may be. A reorg that
    an ingest admits without a refresh drops the recorded blocks after the replacement's parent; no tracked pool or watcher
    consumed a log of theirs. -/
theorem eventFreeReorg_sound (h : Reachable a) :
    Chained a ∧ ∀ {Update Resync : Type} (batch : AmmCanonicalBatch) (subscribed : Bool)
      (answers : IngestAnswers Update Resync) (reports : List (ReactiveReport Update Resync))
      (reorg : ReorgReport Update Resync), answers.engine = .ok reports → .reorg reorg ∈ reports →
      (a.ingest batch subscribed answers).2 = .ok false → ListsUnreferenced a reports →
      ∃ kept dropped, Admitted a batch.block reorg kept dropped ∧
        (a.ingest batch subscribed answers).1.baseline = a.baseline ∧
        (a.ingest batch subscribed answers).1.branch = kept ++ [⟨batch, answers.logs⟩] := by
  refine ⟨h.inv.toChained, ?_⟩
  intro Update Resync batch subscribed answers reports reorg hengine hreorg hok hlists
  rcases a.ingest_cases batch subscribed answers with ⟨_, hfailed⟩ | ⟨_, hfailed⟩ | ⟨reports', hreports, hrecorded⟩
  · rw [hfailed] at hok
    cases hok
  · rw [hfailed] at hok
    cases hok
  · obtain rfl : reports = reports' := Except.ok.inj (hengine.symm.trans hreports)
    rw [hrecorded] at hok ⊢
    have hverified := verified_of_requiresFullRefresh hreorg (Except.ok.inj hok)
    obtain ⟨only, honly, kept, dropped, hadmitted, hbranch⟩ := h.inv.admitted hverified hlists
    obtain rfl : reorg = only := by
      have hin : reorg ∈ reports.filterMap ReactiveReport.reorg? := List.mem_filterMap.mpr ⟨_, hreorg, rfl⟩
      rw [honly] at hin
      exact List.mem_singleton.mp hin
    exact ⟨kept, dropped, hadmitted, hbranch answers.logs⟩

/-- A block without records on the point before it. -/
def emptyBatch (number hash parentHash : Nat) : AmmCanonicalBatch :=
  ⟨1, ⟨number, BitVec.ofNat 256 hash, BitVec.ofNat 256 parentHash, number⟩, 0, [], by simp⟩

def plainAnswers (number : Nat) (reports : List (ReactiveReport Unit Unit)) (logs : List RpcLog) :
    IngestAnswers Unit Unit :=
  ⟨none, .ok reports, some number, none, logs⟩

/-- A log of an address that nothing tracks. -/
def strayLog : RpcLog := ⟨⟨7, [], []⟩, some 101, some 101, none, some 5, some 0, some 0, false⟩

/-- Block 101 with an untracked log, on a baseline of block 100. -/
def strayRun : AmmRuntimeActor :=
  ((start ⟨1, 100, 100⟩ fun log => log.inner.address == 9).ingest (emptyBatch 101 101 100) false
    (plainAnswers 101 [] [strayLog])).1

theorem strayRun_reachable : Reachable strayRun := by
  refine .ingest _ _ _ (.start _ _) ?_
  intro log hlog hinterest
  obtain rfl := List.mem_singleton.mp hlog
  cases hinterest

def strayReorg : ReorgReport Unit Unit := ⟨[⟨101, 101, some 100, none⟩], [.block ⟨101, 101, some 100, none⟩], [], [], []⟩

/-- A sibling of block 101 is admitted. -/
theorem eventFreeReorg_sound_sibling :
    Chained strayRun ∧ ∃ kept dropped, Admitted strayRun (emptyBatch 101 201 100).block strayReorg kept dropped ∧
      (strayRun.ingest (emptyBatch 101 201 100) false (plainAnswers 101 [.reorg strayReorg] [])).1.baseline =
        strayRun.baseline ∧
      (strayRun.ingest (emptyBatch 101 201 100) false (plainAnswers 101 [.reorg strayReorg] [])).1.branch =
        kept ++ [⟨emptyBatch 101 201 100, []⟩] := by
  obtain ⟨hchained, hsound⟩ := eventFreeReorg_sound strayRun_reachable
  refine ⟨hchained, hsound (emptyBatch 101 201 100) false (plainAnswers 101 [.reorg strayReorg] []) _ strayReorg rfl
    (List.mem_singleton_self _) rfl ?_⟩
  intro reorg _ r hr _ log hlog hinterest
  obtain rfl := List.mem_singleton.mp hr
  obtain rfl := List.mem_singleton.mp hlog
  cases hinterest

end AmmRuntimeActor

end AmmState.Reorg
