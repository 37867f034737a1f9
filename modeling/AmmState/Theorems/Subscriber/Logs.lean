import AmmState.Subscriber.Logs

/-! When the subscription's buffer and the reconciliation merge judge the deliveries of a block alike. Both keep the first
    copy under each log index; the buffer compares later copies in every field, the merge leaves out the block timestamp. -/

namespace AmmState.Subscriber
open Checked

/-! ### Canonical deliveries -/

/-- A log as it is delivered for a block: in its place in the chain, with the header's timestamp or none. -/
structure Canonical (block : BlockRef) (log : RpcLog) : Prop where
  removed : log.removed = false
  number : log.blockNumber = some block.number
  hash : log.blockHash = some block.hash
  timestamp : log.blockTimestamp = none ∨ log.blockTimestamp = block.timestamp
  transactionHash : log.transactionHash.isSome = true
  transactionIndex : log.transactionIndex.isSome = true
  logIndex : log.logIndex.isSome = true

def index (log : RpcLog) : Nat := log.logIndex.getD 0

section
variable {block : BlockRef} {log : RpcLog}

theorem Canonical.logIndex_eq (h : Canonical block log) : log.logIndex = some (index log) := by
  obtain ⟨i, hi⟩ := Option.isSome_iff_exists.mp h.logIndex
  rw [index, hi, Option.getD_some]

theorem globalLogKey_of_canonical (h : Canonical block log) : globalLogKey log = .ok (index log) :=
  orError_eq_ok.mpr h.logIndex_eq

/-- The validated logs of a block are its canonical deliveries. -/
theorem validatedLogKey_eq_ok {key : Nat} :
    validatedLogKey log block = .ok key ↔ Canonical block log ∧ key = index log := by
  simp only [validatedLogKey, bind_eq_ok, ensure_eq_ok, orError_eq_ok, pure_eq_ok, exists_and_left, exists_const]
  constructor
  · rintro ⟨⟨hremoved, hnumber, hhash⟩, htimestamp, _, hindex, i, hi, _, hth, rfl⟩
    refine ⟨⟨hremoved, hnumber, hhash, ?_, Option.isSome_of_mem hth, Option.isSome_of_mem hindex, Option.isSome_of_mem hi⟩,
      by rw [index, hi, Option.getD_some]⟩
    cases ht : log.blockTimestamp with
    | none => exact .inl rfl
    | some timestamp => exact .inr (htimestamp timestamp ht).symm
  · rintro ⟨h, rfl⟩
    obtain ⟨_, hindex⟩ := Option.isSome_iff_exists.mp h.transactionIndex
    obtain ⟨_, hhash⟩ := Option.isSome_iff_exists.mp h.transactionHash
    refine ⟨⟨h.removed, h.number, h.hash⟩, fun timestamp ht => ?_, _, hindex, _, h.logIndex_eq, _, hhash, rfl⟩
    rcases h.timestamp with hnone | heq
    · exact absurd (hnone.symm.trans ht) nofun
    · exact heq.symm.trans ht

/-! ### The two merges -/

theorem equiv_eq : FirstCopy.Equiv fun a b : RpcLog => decide (a = b) where
  refl _ := decide_eq_true rfl
  symm h := decide_eq_true (of_decide_eq_true h).symm
  trans h h' := decide_eq_true ((of_decide_eq_true h).trans (of_decide_eq_true h'))

theorem sameValidatedLog_iff {a b : RpcLog} : sameValidatedLog a b = true ↔
    a.inner = b.inner ∧ a.transactionHash = b.transactionHash ∧ a.transactionIndex = b.transactionIndex := by
  simp only [sameValidatedLog, Bool.and_eq_true, decide_eq_true_eq, and_assoc]

theorem equiv_sameValidatedLog : FirstCopy.Equiv sameValidatedLog where
  refl _ := sameValidatedLog_iff.mpr ⟨rfl, rfl, rfl⟩
  symm h := by
    obtain ⟨hinner, hhash, hindex⟩ := sameValidatedLog_iff.mp h
    exact sameValidatedLog_iff.mpr ⟨hinner.symm, hhash.symm, hindex.symm⟩
  trans h h' := by
    obtain ⟨hinner, hhash, hindex⟩ := sameValidatedLog_iff.mp h
    obtain ⟨hinner', hhash', hindex'⟩ := sameValidatedLog_iff.mp h'
    exact sameValidatedLog_iff.mpr ⟨hinner.trans hinner', hhash.trans hhash', hindex.trans hindex'⟩

def conflict : CanonicalLogError := invalidLog "conflicting logs share one global log index"

theorem mergeFetched_of_canonical (h : Canonical block log) (logs : SortedMap Nat RpcLog) :
    mergeFetched block logs log = FirstCopy.put sameValidatedLog conflict logs (index log) log := by
  rw [mergeFetched, validatedLogKey_eq_ok.mpr ⟨h, rfl⟩]
  rfl

theorem foldlM_mergeFetched {deliveries : List RpcLog} (h : ∀ log ∈ deliveries, Canonical block log)
    (logs : SortedMap Nat RpcLog) :
    deliveries.foldlM (mergeFetched block) logs = FirstCopy.putAll sameValidatedLog conflict index logs deliveries := by
  induction deliveries generalizing logs with
  | nil => rfl
  | cons log rest ih =>
    obtain ⟨hlog, hrest⟩ := List.forall_mem_cons.mp h
    rw [List.foldlM_cons, mergeFetched_of_canonical hlog, FirstCopy.putAll, List.foldlM_cons]
    exact congrArg _ (funext fun next => ih hrest next)

/-- The reads of the filters answer with the deliveries, in the order of the filters. -/
def Answers (getLogs : B256 → Filter → Option (List RpcLog)) (block : BlockRef) (filters : List Filter)
    (deliveries : List RpcLog) : Prop :=
  ∃ answers, List.Forall₂ (fun filter answer => getLogs block.hash filter = some answer) filters answers ∧
    answers.flatten = deliveries

theorem fetchReconciliationLogs_eq {getLogs : B256 → Filter → Option (List RpcLog)} {filters : List Filter}
    {deliveries : List RpcLog} (hanswers : Answers getLogs block filters deliveries)
    (h : ∀ log ∈ deliveries, Canonical block log) :
    fetchReconciliationLogs getLogs block filters =
      FirstCopy.putAll sameValidatedLog conflict index .empty deliveries := by
  obtain ⟨answers, hanswers, rfl⟩ := hanswers
  rw [← foldlM_mergeFetched h, fetchReconciliationLogs]
  generalize (SortedMap.empty : SortedMap Nat RpcLog) = logs
  clear h
  induction hanswers generalizing logs with
  | nil => rfl
  | @cons filter answer filters answers hfilter _ ih =>
    rw [List.foldlM_cons, List.flatten_cons, List.foldlM_append, hfilter]
    exact congrArg _ (funext fun next => ih next)

/-- What the buffer holds of a block. -/
def blockLogs (s : LogBuffer) (block : BlockRef) : SortedMap Nat RpcLog :=
  (s.bufferedLogs.get (block.number, block.hash)).getD .empty

theorem bufferSubscriptionLog_eq_ok (h : Canonical block log) {s s' : LogBuffer} :
    bufferSubscriptionLog s log = .ok s' ↔ ∃ logs,
      FirstCopy.put (fun a b => decide (a = b)) conflict (blockLogs s block) (index log) log = .ok logs ∧
        s' = { noteObservedBlock s block.number with
          bufferedLogs := s.bufferedLogs.insert (block.number, block.hash) logs } := by
  have hkept : (noteObservedBlock s block.number).bufferedLogs = s.bufferedLogs := by
    unfold noteObservedBlock
    split_ifs <;> rfl
  rw [bufferSubscriptionLog, h.number, h.hash]
  simp only [globalLogKey_of_canonical h, ok_bind, bind_eq_ok, pure_eq_ok, hkept]
  exact exists_congr fun logs => and_congr_right fun _ => eq_comm

/-- The buffer of a block is the merge of its deliveries under equality. -/
theorem foldlM_bufferSubscriptionLog {deliveries : List RpcLog} (h : ∀ log ∈ deliveries, Canonical block log)
    (s : LogBuffer) (logs : SortedMap Nat RpcLog) :
    (∃ s', deliveries.foldlM bufferSubscriptionLog s = .ok s' ∧ blockLogs s' block = logs) ↔
      FirstCopy.putAll (fun a b => decide (a = b)) conflict index (blockLogs s block) deliveries = .ok logs := by
  induction deliveries generalizing s with
  | nil =>
    simp only [List.foldlM_nil, FirstCopy.putAll, pure_eq_ok]
    refine ⟨fun h => ?_, fun hlogs => ⟨s, rfl, hlogs⟩⟩
    obtain ⟨_, hs, hlogs⟩ := h
    exact hs ▸ hlogs
  | cons log rest ih =>
    obtain ⟨hlog, hrest⟩ := List.forall_mem_cons.mp h
    have hnext : ∀ next, blockLogs { noteObservedBlock s block.number with
        bufferedLogs := s.bufferedLogs.insert (block.number, block.hash) next } block = next := fun next => by
      rw [blockLogs, Map.get_insert_self, Option.getD_some]
    simp only [List.foldlM_cons, FirstCopy.putAll, bind_eq_ok, bufferSubscriptionLog_eq_ok hlog]
    constructor
    · rintro ⟨s', ⟨_, ⟨next, hput, rfl⟩, hs'⟩, hlogs⟩
      have hrun := (ih hrest _).mp ⟨s', hs', hlogs⟩
      rw [hnext] at hrun
      exact ⟨next, hput, hrun⟩
    · rintro ⟨next, hput, hrun⟩
      obtain ⟨s', hs', hlogs⟩ := (ih hrest _).mpr ((hnext next).symm ▸ hrun)
      exact ⟨s', ⟨_, ⟨next, hput, rfl⟩, hs'⟩, hlogs⟩

/-! ### Judging alike -/

/-- One log for each index of the deliveries, in index order. -/
structure KeepsOne (deliveries : List RpcLog) (logs : SortedMap Nat RpcLog) : Prop where
  keys : ∀ i, i ∈ logs.keys ↔ ∃ log ∈ deliveries, log.logIndex = some i
  found : ∀ i log, logs.get i = some log → log ∈ deliveries ∧ log.logIndex = some i
  ordered : logs.keys.Pairwise (· < ·)

theorem KeepsOne.of_holds {deliveries : List RpcLog} {logs : SortedMap Nat RpcLog}
    (h : ∀ log ∈ deliveries, Canonical block log) (hholds : FirstCopy.Holds index logs deliveries) :
    KeepsOne deliveries logs where
  keys i := by
    rw [SortedMap.mem_keys, Option.isSome_iff_exists]
    constructor
    · rintro ⟨log, hlog⟩
      obtain ⟨hmem, rfl⟩ := hholds.mem hlog
      exact ⟨log, hmem, (h log hmem).logIndex_eq⟩
    · rintro ⟨log, hlog, hi⟩
      obtain ⟨first, hfirst⟩ := hholds.get hlog
      obtain rfl := Option.some.inj ((h log hlog).logIndex_eq.symm.trans hi)
      exact ⟨first, hfirst⟩
  found i log hlog := by
    obtain ⟨hmem, rfl⟩ := hholds.mem hlog
    exact ⟨hmem, (h log hmem).logIndex_eq⟩
  ordered := logs.sorted

/-- Two logs that differ in emitter, topics, data or transaction. -/
def Conflict (a b : RpcLog) : Prop :=
  a.inner.address ≠ b.inner.address ∨ a.inner.data.topics ≠ b.inner.data.topics ∨ a.inner.data.data ≠ b.inner.data.data ∨
    a.transactionHash ≠ b.transactionHash ∨ a.transactionIndex ≠ b.transactionIndex

/-- The buffer and the merge judge the deliveries of a block alike. -/
structure JudgedAlike (deliveries : List RpcLog) (block : BlockRef) (buffered : LogResult LogBuffer)
    (fetched : LogResult (SortedMap Nat RpcLog)) : Prop where
  accepts : (∃ s, buffered = .ok s) ↔ ∃ logs, fetched = .ok logs
  keepsBuffered : ∀ s, buffered = .ok s → KeepsOne deliveries (blockLogs s block)
  keepsFetched : ∀ logs, fetched = .ok logs → KeepsOne deliveries logs
  rejects : ∀ a ∈ deliveries, ∀ b ∈ deliveries, a.logIndex = b.logIndex → Conflict a b →
    (∀ s, buffered ≠ .ok s) ∧ ∀ logs, fetched ≠ .ok logs

theorem conflict_iff {a b : RpcLog} : Conflict a b ↔ ¬sameValidatedLog a b = true := by
  obtain ⟨⟨address, topics, data⟩, _, _, _, th, ti, _, _⟩ := a
  obtain ⟨⟨address', topics', data'⟩, _, _, _, th', ti', _, _⟩ := b
  simp only [Conflict, sameValidatedLog_iff, Log.mk.injEq, LogData.mk.injEq, ne_eq]
  tauto

/-- Two deliveries under one index are equal when they are the same but for the timestamp, and the timestamps are equal. -/
theorem eq_of_sameValidatedLog {a b : RpcLog} (ha : Canonical block a) (hb : Canonical block b)
    (hindex : a.logIndex = b.logIndex) (hsame : sameValidatedLog a b = true) (ht : a.blockTimestamp = b.blockTimestamp) :
    a = b := by
  obtain ⟨hinner, hth, hti⟩ := sameValidatedLog_iff.mp hsame
  cases a
  cases b
  simp only [RpcLog.mk.injEq]
  exact ⟨hinner, ha.hash.trans hb.hash.symm, ha.number.trans hb.number.symm, ht, hth, hti, hindex,
    ha.removed.trans hb.removed.symm⟩

section
variable {deliveries : List RpcLog} (hcanonical : ∀ log ∈ deliveries, Canonical block log)
include hcanonical

theorem index_eq_iff {a b : RpcLog} (ha : a ∈ deliveries) (hb : b ∈ deliveries) :
    index a = index b ↔ a.logIndex = b.logIndex := by
  rw [(hcanonical a ha).logIndex_eq, (hcanonical b hb).logIndex_eq, Option.some.injEq]

/-- The merge rejects exactly the deliveries with a conflict. -/
theorem not_agree_iff : ¬FirstCopy.Agree index sameValidatedLog deliveries ↔
    ∃ a ∈ deliveries, ∃ b ∈ deliveries, a.logIndex = b.logIndex ∧ Conflict a b := by
  simp only [FirstCopy.Agree, not_forall, exists_prop, conflict_iff]
  refine exists_congr fun a => and_congr_right fun ha => exists_congr fun b => and_congr_right fun hb => ?_
  rw [index_eq_iff hcanonical ha hb]

/-- The buffer accepts exactly the deliveries without a conflict whose copies have equal timestamps. -/
theorem agree_eq_iff : FirstCopy.Agree index (fun a b => decide (a = b)) deliveries ↔
    FirstCopy.Agree index sameValidatedLog deliveries ∧
      ∀ a ∈ deliveries, ∀ b ∈ deliveries, a.logIndex = b.logIndex → a.blockTimestamp = b.blockTimestamp := by
  constructor
  · intro h
    refine ⟨fun a ha b hb hkey => ?_, fun a ha b hb hkey => ?_⟩
    · rw [of_decide_eq_true (h a ha b hb hkey)]
      exact equiv_sameValidatedLog.refl b
    · rw [of_decide_eq_true (h a ha b hb ((index_eq_iff hcanonical ha hb).mpr hkey))]
  · rintro ⟨hsame, ht⟩ a ha b hb hkey
    have hindex := (index_eq_iff hcanonical ha hb).mp hkey
    exact decide_eq_true (eq_of_sameValidatedLog (hcanonical a ha) (hcanonical b hb) hindex (hsame a ha b hb hkey)
      (ht a ha b hb hindex))

/-- The buffer and the merge judge alike exactly the deliveries with a conflict and those whose copies agree in the
    presence of the timestamp. -/
theorem judgedAlike_iff {s : LogBuffer} (hfresh : s.bufferedLogs.get (block.number, block.hash) = none)
    {getLogs : B256 → Filter → Option (List RpcLog)} {filters : List Filter}
    (hanswers : Answers getLogs block filters deliveries) :
    JudgedAlike deliveries block (deliveries.foldlM bufferSubscriptionLog s)
        (fetchReconciliationLogs getLogs block filters) ↔
      (∃ a ∈ deliveries, ∃ b ∈ deliveries, a.logIndex = b.logIndex ∧ Conflict a b) ∨
        ∀ a ∈ deliveries, ∀ b ∈ deliveries, a.logIndex = b.logIndex → a.blockTimestamp = b.blockTimestamp := by
  have hempty : blockLogs s block = .empty := by rw [blockLogs, hfresh, Option.getD_none]
  have hagreeNil : ∀ same : RpcLog → RpcLog → Bool, FirstCopy.Agree index same [] :=
    fun _ _ ha => absurd ha List.not_mem_nil
  obtain ⟨hfetchOk, hfetchHolds⟩ := FirstCopy.putAll_iff (l := deliveries) conflict equiv_sameValidatedLog
    FirstCopy.holds_empty (hagreeNil _)
  obtain ⟨hbufferOk, hbufferHolds⟩ := FirstCopy.putAll_iff (l := deliveries) conflict equiv_eq
    FirstCopy.holds_empty (hagreeNil _)
  have hrun := foldlM_bufferSubscriptionLog hcanonical s
  rw [hempty] at hrun
  rw [fetchReconciliationLogs_eq hanswers hcanonical, ← not_agree_iff hcanonical]
  have hbuffered : (∃ s', deliveries.foldlM bufferSubscriptionLog s = .ok s') ↔
      FirstCopy.Agree index (fun a b => decide (a = b)) deliveries := by
    refine Iff.trans ⟨fun ⟨s', hs'⟩ => ⟨_, (hrun _).mp ⟨s', hs', rfl⟩⟩, fun ⟨logs, hlogs⟩ => ?_⟩ hbufferOk
    obtain ⟨s', hs', _⟩ := (hrun logs).mpr hlogs
    exact ⟨s', hs'⟩
  constructor
  · intro h
    by_cases hsame : FirstCopy.Agree index sameValidatedLog deliveries
    · exact .inr ((agree_eq_iff hcanonical).mp (hbuffered.mp (h.accepts.mpr (hfetchOk.mpr hsame)))).2
    · exact .inl hsame
  · intro h
    refine ⟨?_, fun s' hs' => ?_, fun logs hlogs => ?_, fun a ha b hb hindex hconflict => ?_⟩
    · rw [hbuffered, hfetchOk, List.nil_append, agree_eq_iff hcanonical]
      exact and_iff_left_of_imp fun hsame => h.resolve_left (not_not.mpr hsame)
    · exact .of_holds hcanonical (hbufferHolds _ ((hrun _).mp ⟨s', hs', rfl⟩))
    · exact .of_holds hcanonical (hfetchHolds logs hlogs)
    · have hnot := (not_agree_iff hcanonical).mpr ⟨a, ha, b, hb, hindex, hconflict⟩
      exact ⟨fun s' hs' => hnot ((agree_eq_iff hcanonical).mp (hbuffered.mp ⟨s', hs'⟩)).1,
        fun logs hlogs => hnot (hfetchOk.mp ⟨logs, hlogs⟩)⟩

end

end

/-- The first log of a block, with or without the timestamp of its header. -/
def firstLog (timestamp : Option Nat) : RpcLog :=
  ⟨⟨1, ⟨[3], []⟩⟩, some 7, some 100, timestamp, some 5, some 0, some 0, false⟩

def firstBlock : BlockRef := ⟨100, 7, none, some 1200⟩

def emptyBuffer : LogBuffer := ⟨.empty, none⟩

def everyLog : Filter := ⟨.empty, fun _ => .empty⟩

theorem canonical_firstLog {timestamp : Option Nat} (h : timestamp = none ∨ timestamp = some 1200) :
    Canonical firstBlock (firstLog timestamp) := ⟨rfl, rfl, rfl, h, rfl, rfl, rfl⟩

theorem judgedAlike_firstLog :
    JudgedAlike [firstLog none, firstLog none] firstBlock
      ([firstLog none, firstLog none].foldlM bufferSubscriptionLog emptyBuffer)
      (fetchReconciliationLogs (fun _ _ => some [firstLog none, firstLog none]) firstBlock [everyLog]) := by
  have hcanonical : ∀ log ∈ [firstLog none, firstLog none], Canonical firstBlock log := by
    intro log hlog
    obtain rfl : log = firstLog none := by simpa using hlog
    exact canonical_firstLog (.inl rfl)
  refine (judgedAlike_iff hcanonical (s := emptyBuffer) rfl ⟨[_], .cons rfl .nil, rfl⟩).mpr (.inr fun a ha b hb _ => ?_)
  obtain rfl : a = firstLog none := by simpa using ha
  obtain rfl : b = firstLog none := by simpa using hb
  rfl

/-- A copy with the header's timestamp after one without stops the driver on the subscription path only. -/
theorem timestamped_copy_conflicts :
    (∀ log ∈ [firstLog none, firstLog (some 1200)], Canonical firstBlock log) ∧
    ¬JudgedAlike [firstLog none, firstLog (some 1200)] firstBlock
      ([firstLog none, firstLog (some 1200)].foldlM bufferSubscriptionLog emptyBuffer)
      (fetchReconciliationLogs (fun _ _ => some [firstLog none, firstLog (some 1200)]) firstBlock [everyLog]) := by
  refine ⟨fun log hlog => ?_, fun h => ?_⟩
  · rcases List.mem_pair.mp hlog with rfl | rfl
    · exact canonical_firstLog (.inl rfl)
    · exact canonical_firstLog (.inr rfl)
  · obtain ⟨s, hs⟩ := h.accepts.mpr ⟨_, rfl⟩
    have hstop : [firstLog none, firstLog (some 1200)].foldlM bufferSubscriptionLog emptyBuffer = .error conflict := rfl
    exact absurd (hstop.symm.trans hs) nofun

end AmmState.Subscriber
