import AmmState.Lib.ByteWords
import Mathlib.Data.List.Basic

/-! A fragment of the EVM: the instructions of straight-line loaders and simple loops over calldata, storage and memory.
    Gas and allocation are left out; every other instruction is a fault. -/

namespace AmmState.Evm

abbrev Word := BitVec 256
abbrev Byte := BitVec 8

/-! ### Bytes -/

/-- A word as 32 bytes, most significant first. -/
def wordBytes (word : Word) : List Byte := ByteWords.toBeBytes 32 word.toNat

def ofBytes (bytes : List Byte) : Word := BitVec.ofNat 256 (ByteWords.fromBeBytes bytes)

/-- Some bytes from an offset on, with zeros past the end. -/
def window (bytes : List Byte) (offset count : Nat) : List Byte := (List.range count).map fun i => bytes.getD (offset + i) 0

abbrev Memory := Nat → Byte

def Memory.zero : Memory := fun _ => 0

def Memory.store (memory : Memory) (offset : Nat) (word : Word) : Memory := fun i =>
  if offset ≤ i ∧ i < offset + 32 then (wordBytes word).getD (i - offset) 0 else memory i

def Memory.read (memory : Memory) (offset count : Nat) : List Byte := (List.range count).map fun i => memory (offset + i)

/-! ### Instructions -/

inductive Instruction
  | stop | add | eq | calldataload | calldatasize | mstore | sload | jump | jumpi | jumpdest
  | push (width : Nat)
  | dup (depth : Nat)
  | return
  | invalid
  deriving DecidableEq

def decode (byte : Byte) : Instruction :=
  if 0x60 ≤ byte.toNat ∧ byte.toNat ≤ 0x7f then .push (byte.toNat - 0x5f)
  else if 0x80 ≤ byte.toNat ∧ byte.toNat ≤ 0x8f then .dup (byte.toNat - 0x80)
  else match byte.toNat with
    | 0x00 => .stop
    | 0x01 => .add
    | 0x14 => .eq
    | 0x35 => .calldataload
    | 0x36 => .calldatasize
    | 0x52 => .mstore
    | 0x54 => .sload
    | 0x56 => .jump
    | 0x57 => .jumpi
    | 0x5b => .jumpdest
    | 0xf3 => .return
    | _ => .invalid

def Instruction.width : Instruction → Nat
  | .push width => width
  | _ => 0

/-- The jump destinations from a position on, after some bytes that belong to a push. -/
def jumpDestsFrom : Nat → Nat → List Byte → List Nat
  | _, _, [] => []
  | skip + 1, pc, _ :: rest => jumpDestsFrom skip (pc + 1) rest
  | 0, pc, byte :: rest =>
    let later := jumpDestsFrom (decode byte).width (pc + 1) rest
    if decode byte = .jumpdest then pc :: later else later

def jumpDests (code : List Byte) : List Nat := jumpDestsFrom 0 0 code

/-! ### Execution -/

structure Env where
  code : List Byte
  calldata : List Byte
  storage : Word → Word

structure Machine where
  pc : Nat
  stack : List Word
  memory : Memory

def Machine.start : Machine := ⟨0, [], .zero⟩

inductive Halt
  | returned (output : List Byte)
  | stopped
  | fault

inductive Outcome
  | continues (machine : Machine)
  | halts (halt : Halt)

def STACK_LIMIT : Nat := 1024

/-- Push a word and go on at a position. -/
def pushAt (machine : Machine) (pc : Nat) (stack : List Word) (word : Word) : Outcome :=
  if stack.length < STACK_LIMIT then .continues { machine with pc, stack := word :: stack } else .halts .fault

def jumpTo (env : Env) (machine : Machine) (dest : Word) (stack : List Word) : Outcome :=
  if dest.toNat ∈ jumpDests env.code then .continues { machine with pc := dest.toNat, stack } else .halts .fault

def execute (env : Env) (machine : Machine) (instruction : Instruction) : Outcome :=
  match instruction, machine.stack with
  | .stop, _ => .halts .stopped
  | .jumpdest, _ => .continues { machine with pc := machine.pc + 1 }
  | .push width, stack => pushAt machine (machine.pc + 1 + width) stack (ofBytes (window env.code (machine.pc + 1) width))
  | .dup depth, stack =>
    match stack[depth]? with
    | some word => pushAt machine (machine.pc + 1) stack word
    | none => .halts .fault
  | .calldatasize, stack => pushAt machine (machine.pc + 1) stack (BitVec.ofNat 256 env.calldata.length)
  | .calldataload, offset :: stack =>
    pushAt machine (machine.pc + 1) stack (ofBytes (window env.calldata offset.toNat 32))
  | .sload, key :: stack => pushAt machine (machine.pc + 1) stack (env.storage key)
  | .add, a :: b :: stack => pushAt machine (machine.pc + 1) stack (a + b)
  | .eq, a :: b :: stack => pushAt machine (machine.pc + 1) stack (if a = b then 1 else 0)
  | .mstore, offset :: word :: stack =>
    .continues ⟨machine.pc + 1, stack, machine.memory.store offset.toNat word⟩
  | .jump, dest :: stack => jumpTo env machine dest stack
  | .jumpi, dest :: condition :: stack =>
    if condition = 0 then .continues { machine with pc := machine.pc + 1, stack } else jumpTo env machine dest stack
  | .return, offset :: size :: _ => .halts (.returned (machine.memory.read offset.toNat size.toNat))
  | _, _ => .halts .fault

/-- Past its end the code stops. -/
def step (env : Env) (machine : Machine) : Outcome :=
  match env.code[machine.pc]? with
  | none => .halts .stopped
  | some byte => execute env machine (decode byte)

/-- How a machine halts, where it does with the fuel. -/
def run (env : Env) : Nat → Machine → Option Halt
  | 0, _ => none
  | fuel + 1, machine =>
    match step env machine with
    | .continues next => run env fuel next
    | .halts halt => some halt

/-- The code returns these bytes. -/
def Returns (env : Env) (output : List Byte) : Prop :=
  ∃ steps, ∀ fuel, steps ≤ fuel → run env fuel .start = some (.returned output)

/-! ### Reaching a machine -/

/-- After some steps the run goes on from the other machine. -/
def Reaches (env : Env) (machine other : Machine) : Prop :=
  ∃ steps, ∀ fuel, run env (steps + fuel) machine = run env fuel other

section
variable {env : Env} {machine next other : Machine}

theorem Reaches.refl : Reaches env machine machine := ⟨0, fun fuel => by rw [Nat.zero_add]⟩

theorem Reaches.trans (h : Reaches env machine next) (h' : Reaches env next other) : Reaches env machine other := by
  obtain ⟨steps, hsteps⟩ := h
  obtain ⟨more, hmore⟩ := h'
  exact ⟨steps + more, fun fuel => by rw [Nat.add_assoc, hsteps, hmore]⟩

theorem Reaches.head (next : Machine) (h : step env machine = .continues next) (h' : Reaches env next other) :
    Reaches env machine other := by
  have hstep : Reaches env machine next := ⟨1, fun fuel => by rw [Nat.add_comm, run, h]⟩
  exact hstep.trans h'

/-- A loop whose body takes each machine of a family to the next one. -/
theorem Reaches.iterate {I : Nat → Machine} {count : Nat} (body : ∀ i < count, Reaches env (I i) (I (i + 1))) :
    Reaches env (I 0) (I count) := by
  induction count with
  | zero => exact .refl
  | succ count ih => exact (ih fun i hi => body i (Nat.lt_succ_of_lt hi)).trans (body count (Nat.lt_succ_self count))

theorem Reaches.returns (h : Reaches env .start machine) {output : List Byte}
    (hhalt : step env machine = .halts (.returned output)) : Returns env output := by
  obtain ⟨steps, hsteps⟩ := h
  refine ⟨steps + 1, fun fuel hfuel => ?_⟩
  obtain ⟨rest, rfl⟩ := Nat.exists_eq_add_of_le hfuel
  rw [Nat.add_assoc, hsteps, Nat.add_comm, run, hhalt]

end

/-! ### Bytes and windows -/

@[simp] theorem length_wordBytes (word : Word) : (wordBytes word).length = 32 := ByteWords.length_toBeBytes 32 _

theorem ofBytes_wordBytes (word : Word) : ofBytes (wordBytes word) = word := by
  rw [ofBytes, wordBytes, ByteWords.fromBeBytes_toBeBytes 32 (by simpa using word.isLt), BitVec.ofNat_toNat,
    BitVec.setWidth_eq]

/-- The bytes between two parts. -/
theorem window_append {before bytes after : List Byte} {offset count : Nat} (hoffset : offset = before.length)
    (hcount : count = bytes.length) : window (before ++ bytes ++ after) offset count = bytes := by
  subst hoffset hcount
  refine List.ext_getElem (by simp [window]) fun i h _ => ?_
  have hi : i < bytes.length := by simpa [window] using h
  have hget : (before ++ bytes ++ after)[before.length + i]? = some bytes[i] := by
    rw [List.append_assoc, List.getElem?_append_right (Nat.le_add_right _ _), Nat.add_sub_cancel_left,
      List.getElem?_append_left hi, List.getElem?_eq_getElem hi]
  simp only [window, List.getElem_map, List.getElem_range, List.getD_eq_getElem?_getD, hget, Option.getD_some]

theorem length_flatMap_wordBytes (words : List Word) : (words.flatMap wordBytes).length = 32 * words.length := by
  induction words with
  | nil => rfl
  | cons word words ih => rw [List.flatMap_cons, List.length_append, ih, length_wordBytes, List.length_cons]; omega

/-- The words before `i`, the word at `i`, and those after it. -/
theorem window_flatMap_wordBytes {words : List Word} {i : Nat} (hi : i < words.length) :
    window (words.flatMap wordBytes) (32 * i) 32 = wordBytes words[i] := by
  have hsplit : words.flatMap wordBytes =
      (words.take i).flatMap wordBytes ++ wordBytes words[i] ++ (words.drop (i + 1)).flatMap wordBytes := by
    conv_lhs => rw [← List.take_append_drop i words, List.drop_eq_getElem_cons hi]
    rw [List.flatMap_append, List.flatMap_cons, List.append_assoc]
  rw [hsplit]
  exact window_append (by rw [length_flatMap_wordBytes, List.length_take, min_eq_left hi.le]) (length_wordBytes _).symm

/-- A word stored right after a prefix is read after it. -/
theorem Memory.read_store (memory : Memory) (count : Nat) (word : Word) :
    (memory.store count word).read 0 (count + 32) = memory.read 0 count ++ wordBytes word := by
  rw [Memory.read, List.range_add, List.map_append]
  refine congrArg₂ (· ++ ·) (List.map_congr_left fun i hi => ?_) ?_
  · have hlt : i < count := List.mem_range.mp hi
    rw [Nat.zero_add, Memory.store, if_neg (by omega)]
  · refine List.ext_getElem (by simp) fun i h _ => ?_
    have hi : i < 32 := by simpa using h
    simp [Memory.store, hi]

/-! ### Straight-line code -/

theorem length_snoc (bytes : List Byte) (byte : Byte) : (bytes ++ [byte]).length = bytes.length + 1 := by simp

section
variable {env : Env} {before after : List Byte} {stack : List Word} {memory : Memory}

theorem step_at (byte : Byte) (after : List Byte) (hcode : env.code = before ++ byte :: after) :
    step env ⟨before.length, stack, memory⟩ = execute env ⟨before.length, stack, memory⟩ (decode byte) := by
  simp [step, hcode]

/-- A push of the bytes that follow it. -/
theorem step_push {byte : Byte} {bytes : List Byte} (memory : Memory) (hbyte : decode byte = .push bytes.length)
    (hcode : env.code = before ++ byte :: bytes ++ after) (hstack : stack.length < STACK_LIMIT) :
    step env ⟨before.length, stack, memory⟩ =
      .continues ⟨(before ++ byte :: bytes).length, ofBytes bytes :: stack, memory⟩ := by
  have hcode' : env.code = before ++ byte :: (bytes ++ after) := by rw [hcode, List.append_assoc, List.cons_append]
  have hwindow : window env.code (before.length + 1) bytes.length = bytes := by
    rw [hcode, ← List.singleton_append, ← List.append_assoc before]
    exact window_append (by simp) rfl
  have hpc : before.length + 1 + bytes.length = (before ++ byte :: bytes).length := by
    rw [List.length_append, List.length_cons]
    omega
  rw [step_at _ _ hcode', hbyte, execute, pushAt, if_pos hstack, hwindow, hpc]

end
end AmmState.Evm
