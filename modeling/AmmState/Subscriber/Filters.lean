import AmmState.Lib.ByteWords
import AmmState.Lib.SortDedup
import AmmState.Reactive
import Mathlib.Data.List.Dedup

/-! Log filters of the subscriber driver: coalescing the filters of one exact-block read (`subscriber_driver/filters.rs`)
    and the absence proof from a block's bloom (`subscriber_driver/bloom.rs`). -/

namespace AmmState.Subscriber

/-! ### Filters -/

/-- A set of a log filter, in the order in which it iterates. Two sets are equal when they have the same elements. -/
structure FilterSet (α : Type) where
  items : List α
  nodup : items.Nodup

namespace FilterSet
variable {α : Type}

def empty : FilterSet α := ⟨[], .nil⟩

def isEmpty (s : FilterSet α) : Bool := s.items.isEmpty

/-- Equality of sets, whatever their orders. -/
def sameSet [DecidableEq α] (s t : FilterSet α) : Bool := s.items.all (· ∈ t.items) && t.items.all (· ∈ s.items)

/-- An empty set is a wildcard. -/
def matchesValue [DecidableEq α] (s : FilterSet α) (value : α) : Bool := s.isEmpty || decide (value ∈ s.items)

end FilterSet

/-- How a vector becomes a hash set: every element once, in an order that the hasher chooses. -/
structure Hashing (α : Type) where
  collect : List α → FilterSet α
  mem_collect : ∀ values a, a ∈ (collect values).items ↔ a ∈ values

/-- The hasher that keeps the order of first occurrence from the end. -/
def Hashing.inOrder {α : Type} [DecidableEq α] : Hashing α where
  collect values := ⟨values.dedup, values.nodup_dedup⟩
  mem_collect _ _ := List.mem_dedup

structure Filter where
  address : FilterSet Address
  topics : Fin 4 → FilterSet B256

namespace Filter

def sameTopics (f g : Filter) : Bool := decide (∀ i, (f.topics i).sameSet (g.topics i) = true)

/-- One topic position of a log; a log without it does not match a constrained position. -/
def matchesTopic (f : Filter) (topics : List B256) (i : Fin 4) : Bool :=
  (f.topics i).isEmpty || topics[i.val]?.any (f.topics i).matchesValue

/-- A log matches in its address and in every topic position. -/
def matchesLog (f : Filter) (log : Log) : Bool :=
  f.address.matchesValue log.address && decide (∀ i, f.matchesTopic log.data.topics i = true)

end Filter

/-! ### Coalescing -/

section Coalescing
variable (hashing : Hashing Address)

/-- The addresses of both sets, in order. -/
def unionAddresses (group filter : FilterSet Address) : FilterSet Address :=
  hashing.collect (SortDedup.sortDedup BitVec.toNat (group.items ++ filter.items))

/-- A filter joins the group of its topics; a wildcard on either side makes the group a wildcard. -/
def joinGroup (group filter : Filter) : Filter :=
  if group.address.isEmpty || filter.address.isEmpty then { group with address := .empty }
  else { group with address := unionAddresses hashing group.address filter.address }

/-- The first group with equal topics takes the filter, else the filter is a group of its own. -/
def groupFilter : List Filter → Filter → List Filter
  | [], filter => [filter]
  | group :: rest, filter =>
    if group.sameTopics filter then joinGroup hashing group filter :: rest else group :: groupFilter rest filter

/-- Runs of `size` elements; the last one may be shorter. -/
def chunks {α : Type} (size : Nat) (l : List α) : List (List α) :=
  (List.range ((l.length + size - 1) / size)).map fun i => (l.drop (i * size)).take size

def splitGroup (maxAddresses : Nat) (group : Filter) : List Filter :=
  if group.address.isEmpty then [group]
  else (chunks (max maxAddresses 1) group.address.items).map fun chunk => { group with address := hashing.collect chunk }

def reconciliationFilters (filters : List Filter) (maxAddresses : Nat) : List Filter :=
  (filters.foldl (groupFilter hashing) []).flatMap (splitGroup hashing maxAddresses)

end Coalescing

/-! ### Absence -/

def addressBytes (address : Address) : Bytes := ByteWords.toBeBytes 20 address.toNat

def wordBytes (word : B256) : Bytes := ByteWords.toBeBytes 32 word.toNat

/-- Whether a bloom lets a filter through. `admits` says whether the bloom contains a raw input. -/
def admitsFilter (admits : Bytes → Bool) (filter : Filter) : Bool :=
  filter.address.items.any (fun address => admits (addressBytes address)) &&
    !decide (∃ i, !(filter.topics i).isEmpty && !(filter.topics i).items.any fun topic => admits (wordBytes topic))

/-- The loop over the filters; the first one that is a wildcard or let through ends it. -/
def excludesEveryFilterFrom (admits : Bytes → Bool) (sawFilter : Bool) : List Filter → Bool
  | [] => sawFilter
  | filter :: rest =>
    if filter.address.isEmpty then false
    else if admitsFilter admits filter then false
    else excludesEveryFilterFrom admits true rest

/-- Whether a bloom proves that no log of its block matches a filter. Blooms are a package of their own: `containsInput` is
    their test of a raw input. -/
def excludesEveryFilter {Bloom : Type} (containsInput : Bloom → Bytes → Bool) (bloom : Bloom) (filters : List Filter) :
    Bool :=
  excludesEveryFilterFrom (containsInput bloom) false filters

end AmmState.Subscriber
