import AmmState.Runtime.Reorg
import Mathlib.Data.List.Pairwise

/-! Which records a canonical batch is built from. The record loop keeps what it has seen; a list gets through exactly where
    every record is a log of the block and every two of them are in the order of their positions with different log
    indices. -/

namespace AmmState.Reorg
open Checked

/-- Transaction hash, transaction index and global log index. -/
abbrev LogIdentity := B256 × Nat × Nat

/-- A log that is not removed, of this block on this chain, whose complete identity its context agrees with. -/
structure Admissible (chainId : Nat) (block : BlockRef) (record : ReactiveInputRecord) (identity : LogIdentity) : Prop where
  log : ∃ log, recordLog record = some log ∧ log.removed = false ∧ log.blockNumber = some block.number ∧
    log.blockHash = some block.hash ∧ logIdentity log = some identity
  chainId : record.context.chainId = some chainId
  block : record.context.chainStatus.block = some block
  transactionIndex : record.context.transactionIndex = some identity.2.1
  logIndex : record.context.logIndex = some identity.2.2

/-- The order of positions: by transaction, and within one by log. -/
def Before (p q : Nat × Nat) : Prop := p.1 < q.1 ∨ p.1 = q.1 ∧ p.2 < q.2

instance (p q : Nat × Nat) : Decidable (Before p q) := inferInstanceAs (Decidable (_ ∨ _))

theorem Before.trans {p q r : Nat × Nat} (h : Before p q) (h' : Before q r) : Before p r := by
  unfold Before at *
  omega

/-- The second of two records may follow the first. -/
def Follows (a b : LogIdentity) : Prop := Before a.2 b.2 ∧ a.2.2 ≠ b.2.2

/-! ### The record loop -/

namespace Seen

def push (seen : Seen) (identity : LogIdentity) : Seen :=
  ⟨(identity.1, identity.2.2) :: seen.identities, identity.2.2 :: seen.positions, some identity.2⟩

/-- The identity follows all that was seen. -/
structure Admits (seen : Seen) (identity : LogIdentity) : Prop where
  identities : (identity.1, identity.2.2) ∉ seen.identities
  positions : identity.2.2 ∉ seen.positions
  previous : ∀ previous, seen.previousPosition = some previous → Before previous identity.2

theorem admits_push {seen : Seen} {identity next : LogIdentity} (h : seen.Admits identity) :
    (seen.push identity).Admits next ↔ seen.Admits next ∧ Follows identity next := by
  constructor
  · intro hnext
    have hbefore : Before identity.2 next.2 := hnext.previous _ rfl
    refine ⟨⟨fun hmem => hnext.identities (List.mem_cons_of_mem _ hmem),
      fun hmem => hnext.positions (List.mem_cons_of_mem _ hmem),
      fun previous hprevious => (h.previous previous hprevious).trans hbefore⟩, hbefore, fun heq => hnext.positions ?_⟩
    rw [← heq]
    exact List.mem_cons_self
  · rintro ⟨hnext, hbefore, hne⟩
    refine ⟨?_, ?_, ?_⟩
    · intro hmem
      rcases List.mem_cons.mp hmem with heq | hmem
      · exact hne (Prod.mk.inj heq).2.symm
      · exact hnext.identities hmem
    · intro hmem
      rcases List.mem_cons.mp hmem with heq | hmem
      · exact hne heq.symm
      · exact hnext.positions hmem
    · rintro _ ⟨⟩
      exact hbefore

end Seen

section
variable {chainId : Nat} {block : BlockRef} {seen seen' : Seen} {index : Nat} {record : ReactiveInputRecord}
  {records : List ReactiveInputRecord}

/-- A position is in order with the position before it. -/
theorem checkOrder_eq_ok (index : Nat) (position : Nat × Nat) (next : Seen) :
    (match seen.previousPosition with
      | none => pure next
      | some previous => do
        let _ ← ensure (previous.1 < position.1 ∨ previous.1 = position.1 ∧ previous.2 < position.2)
          (AmmCanonicalBatchError.outOfOrderRecord index previous position)
        pure next) = Except.ok seen' ↔
      (∀ previous, seen.previousPosition = some previous → Before previous position) ∧ next = seen' := by
  cases seen.previousPosition with
  | none => exact ⟨fun h => ⟨fun _ hnone => (by cases hnone), pure_eq_ok.mp h⟩, fun h => pure_eq_ok.mpr h.2⟩
  | some previous =>
    dsimp only
    rw [bind_eq_ok]
    constructor
    · rintro ⟨u, hu, hnext⟩
      exact ⟨fun _ heq => Option.some.inj heq ▸ ensure_eq_ok.mp hu, pure_eq_ok.mp hnext⟩
    · rintro ⟨hbefore, hnext⟩
      exact ⟨(), ensure_of (hbefore previous rfl), pure_eq_ok.mpr hnext⟩

/-- A round ends where the record is admissible and follows all that was seen, which it then joins. -/
theorem checkRecord_eq_ok : checkRecord chainId block seen index record = .ok seen' ↔
    ∃ identity, Admissible chainId block record identity ∧ seen.Admits identity ∧ seen' = seen.push identity := by
  unfold checkRecord
  constructor
  · intro h
    obtain ⟨log, hlog, h⟩ := bind_eq_ok.mp h
    obtain ⟨_, hremoved, h⟩ := bind_eq_ok.mp h
    obtain ⟨chain, hchain, h⟩ := bind_eq_ok.mp h
    obtain ⟨_, hsame, h⟩ := bind_eq_ok.mp h
    obtain ⟨recordBlock, hblock, h⟩ := bind_eq_ok.mp h
    obtain ⟨_, hsameBlock, h⟩ := bind_eq_ok.mp h
    obtain ⟨_, hidentified, h⟩ := bind_eq_ok.mp h
    obtain ⟨⟨hash, transactionIndex, logIndex⟩, hidentity, h⟩ := bind_eq_ok.mp h
    obtain ⟨_, hcontext, h⟩ := bind_eq_ok.mp h
    obtain ⟨_, hfresh, h⟩ := bind_eq_ok.mp h
    obtain ⟨hordered, hnext⟩ := (checkOrder_eq_ok index (transactionIndex, logIndex) _).mp h
    rw [orError_eq_ok] at hlog hchain hblock hidentity
    rw [ensure_eq_ok] at hremoved hsame hsameBlock hidentified hcontext hfresh
    refine ⟨(hash, transactionIndex, logIndex), ?_, ?_, hnext.symm⟩
    · exact ⟨⟨log, hlog, hremoved, hidentified.1, hidentified.2, hidentity⟩, hsame ▸ hchain,
        hsameBlock ▸ hblock, hcontext.1, hcontext.2⟩
    · exact ⟨hfresh.1, hfresh.2, hordered⟩
  · rintro ⟨identity, hadmissible, hadmits, rfl⟩
    obtain ⟨log, hlog, hremoved, hnumber, hhash, hidentity⟩ := hadmissible.log
    refine bind_eq_ok.mpr ⟨log, orError_eq_ok.mpr hlog, bind_eq_ok.mpr ⟨(), ensure_of hremoved, ?_⟩⟩
    refine bind_eq_ok.mpr ⟨chainId, orError_eq_ok.mpr hadmissible.chainId, bind_eq_ok.mpr ⟨(), ensure_of rfl, ?_⟩⟩
    refine bind_eq_ok.mpr ⟨block, orError_eq_ok.mpr hadmissible.block, bind_eq_ok.mpr ⟨(), ensure_of rfl, ?_⟩⟩
    refine bind_eq_ok.mpr ⟨(), ensure_of ⟨hnumber, hhash⟩, bind_eq_ok.mpr ⟨identity, orError_eq_ok.mpr hidentity, ?_⟩⟩
    refine bind_eq_ok.mpr ⟨(), ensure_of ⟨hadmissible.transactionIndex, hadmissible.logIndex⟩, ?_⟩
    refine bind_eq_ok.mpr ⟨(), ensure_of ⟨hadmits.identities, hadmits.positions⟩, ?_⟩
    exact (checkOrder_eq_ok index identity.2 _).mpr ⟨hadmits.previous, rfl⟩

theorem checkRecords_ok_iff : (∃ seen', checkRecords chainId block seen index records = .ok seen') ↔
    ∃ identities, List.Forall₂ (Admissible chainId block) records identities ∧
      (∀ identity ∈ identities, seen.Admits identity) ∧
      identities.Pairwise Follows := by
  induction records generalizing seen index with
  | nil =>
    refine ⟨fun _ => ⟨[], .nil, nofun, .nil⟩, fun _ => ⟨seen, rfl⟩⟩
  | cons record rest ih =>
    constructor
    · rintro ⟨last, h⟩
      obtain ⟨next, hrecord, hrest⟩ := bind_eq_ok.mp h
      obtain ⟨identity, hadmissible, hadmits, rfl⟩ := checkRecord_eq_ok.mp hrecord
      obtain ⟨identities, hall, hadmitted, hpairwise⟩ := ih.mp ⟨last, hrest⟩
      have hsplit := fun later hlater => (Seen.admits_push hadmits).mp (hadmitted later hlater)
      refine ⟨identity :: identities, .cons hadmissible hall, ?_,
        .cons (fun later hlater => (hsplit later hlater).2) hpairwise⟩
      exact List.forall_mem_cons.mpr ⟨hadmits, fun later hlater => (hsplit later hlater).1⟩
    · rintro ⟨identities, hall, hadmitted, hpairwise⟩
      cases hall with
      | @cons _ identity _ identities hadmissible hall =>
        obtain ⟨hadmits, hadmitted⟩ := List.forall_mem_cons.mp hadmitted
        obtain ⟨hfollows, hpairwise⟩ := List.pairwise_cons.mp hpairwise
        obtain ⟨last, hrest⟩ := (@ih (seen.push identity) (index + 1)).mpr ⟨identities, hall,
          fun later hlater => (Seen.admits_push hadmits).mpr ⟨hadmitted later hlater, hfollows later hlater⟩, hpairwise⟩
        exact ⟨last, bind_eq_ok.mpr ⟨_, checkRecord_eq_ok.mpr ⟨identity, hadmissible, hadmits, rfl⟩, hrest⟩⟩

end

/-! ### Batches -/

/-- Records of a block whose identities are in the given order. -/
def Accepts (order : LogIdentity → LogIdentity → Prop) (chainId : Nat) (block : BlockRef)
    (records : List ReactiveInputRecord) :
    Prop := ∃ identities, List.Forall₂ (Admissible chainId block) records identities ∧ identities.Pairwise order

/-- Transactions in order with one hash for each, and log indices that strictly increase. -/
def Executes (a b : LogIdentity) : Prop := a.2.2 < b.2.2 ∧ a.2.1 ≤ b.2.1 ∧ (a.2.1 = b.2.1 → a.1 = b.1)

section
variable {chainId : Nat} {header : RpcHeader} {computedHash : B256} {interestRevision : Nat}
  {records : List ReactiveInputRecord}

theorem fromVerifiedBlock_ok_iff :
    (∃ batch, AmmCanonicalBatch.fromVerifiedBlock chainId header computedHash interestRevision records = .ok batch) ↔
      header.hash = computedHash ∧ Accepts Follows chainId header.block records := by
  have hloop : (∃ seen, checkRecords chainId header.block ⟨[], [], none⟩ 0 records = .ok seen) ↔
      Accepts Follows chainId header.block records := by
    rw [checkRecords_ok_iff]
    refine exists_congr fun identities => and_congr_right fun _ => and_iff_right fun identity _ => ?_
    exact ⟨List.not_mem_nil, List.not_mem_nil, nofun⟩
  rw [← hloop]
  unfold AmmCanonicalBatch.fromVerifiedBlock
  split_ifs with hhash
  · exact ⟨nofun, fun h => absurd h.1 hhash⟩
  · rw [not_not] at hhash
    split
    · next error herror => exact ⟨nofun, fun ⟨_, seen, hseen⟩ => nomatch herror.symm.trans hseen⟩
    · next seen hseen => exact ⟨fun _ => ⟨hhash, seen, hseen⟩, fun _ => ⟨_, rfl⟩⟩

/-- A batch is accepted exactly where its header hash is the computed one and its records are logs of the block in the order
    of their positions, each with a log index of its own. Then no two of them name the same log, and where log indices grow
    with the transactions they are in execution order. -/
theorem canonicalBatch_exact :
    ((∃ batch, AmmCanonicalBatch.fromVerifiedBlock chainId header computedHash interestRevision records = .ok batch) ↔
      header.hash = computedHash ∧ Accepts Follows chainId header.block records) ∧
    ∀ identities, List.Forall₂ (Admissible chainId header.block) records identities → identities.Pairwise Follows →
      (identities.map fun identity => (identity.1, identity.2.2)).Nodup ∧
      (identities.map fun identity => identity.2.2).Nodup ∧
      ((∀ a ∈ identities, ∀ b ∈ identities, a.2.1 < b.2.1 → a.2.2 < b.2.2) →
        identities.Pairwise fun a b => a.2.1 ≤ b.2.1 ∧ a.2.2 < b.2.2) := by
  refine ⟨fromVerifiedBlock_ok_iff, fun identities _ hfollows => ⟨?_, ?_, fun hgrows => ?_⟩⟩
  · exact List.pairwise_map.mpr (hfollows.imp fun hab heq => hab.2 (Prod.mk.inj heq).2)
  · exact List.pairwise_map.mpr (hfollows.imp And.right)
  · refine hfollows.imp_of_mem fun ha hb hab => ?_
    rcases hab.1 with hlt | ⟨heq, hlt⟩
    · exact ⟨Nat.le_of_lt hlt, hgrows _ ha _ hb hlt⟩
    · exact ⟨Nat.le_of_eq heq, hlt⟩

end

/-- A record of block 501 at a transaction and a log index. -/
def recordAt (transactionHash : B256) (transactionIndex logIndex : Nat) : ReactiveInputRecord where
  input := .log ⟨⟨0x11, ⟨[], []⟩⟩, some 0x51, some 501, none, some transactionHash,
    some transactionIndex, some logIndex, false⟩
  context := ⟨some 1, .included ⟨501, 0x51, some 0x50, some 9⟩ 0, none, some transactionIndex, some logIndex⟩
  audience := none
  deliveryScope := none

/-- The second log has the lower log index, and the batch is accepted. -/
theorem canonicalBatch_out_of_order :
    ¬((∃ batch, AmmCanonicalBatch.fromVerifiedBlock 1 ⟨501, 0x51, 0x50, 9⟩ 0x51 7 [recordAt 0xa 0 5, recordAt 0xb 1 3] =
        .ok batch) ↔
      (0x51 : B256) = 0x51 ∧ Accepts Executes 1 ⟨501, 0x51, some 0x50, some 9⟩ [recordAt 0xa 0 5, recordAt 0xb 1 3]) := by
  intro h
  obtain ⟨-, identities, hall, hordered⟩ := h.mp ⟨_, rfl⟩
  cases hall with
  | cons hfirst hrest =>
    cases hrest with
    | cons hsecond hrest =>
      cases hrest
      have hlt := ((List.pairwise_cons.mp hordered).1 _ List.mem_cons_self).1
      have hfive := Option.some.inj hfirst.logIndex
      have hthree := Option.some.inj hsecond.logIndex
      omega

end AmmState.Reorg
