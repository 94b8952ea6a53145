import Mathlib.Data.List.Forall2
import Mathlib.Logic.Relation
import N3.Proofs.Vm.Constant
import N3.Vm.Service

/-!
# The virtual machine

What instructions do when they are run: those that push a constant, gather items in an array or a map, move and compare
items, jump, and call a service. Arrays, maps and iterators are objects in a memory, and an item on the stack is a value
or the place of an object. An object that is appended to is therefore seen to grow from wherever it is referred to.

`run` goes through instructions one after the other, and `step` through the bytes of a script, where a jump can lead
anywhere. `steps_run` says that a script with these instructions goes through them in the same way. A `Value` is what an
item shows when the memory is looked up (`Shows`); a memory that grows shows the same.
-/

set_option autoImplicit false

namespace N3

theorem Service.ofHash?_hash (s : Service) : ofHash? s.hash = some s := by
  have hall : ∀ s ∈ all, ofHash? s.hash = some s := by decide +kernel
  exact hall s (by cases s <;> decide)

namespace Machine

/-! ## States -/

/-- What can be on the stack. Objects are in the memory, and a reference has the place of one. -/
inductive Item where
  | null
  | boolean (value : Bool)
  | integer (value : Int)
  | bytes (value : Bytes)
  | reference (place : Nat)
  deriving DecidableEq

/-- What can be in the memory. A map is its pairs of key and value; an iterator has the item that it is at, if it is at
one, and those still to come. -/
inductive Object where
  | array (items : List Item)
  | map (entries : List (Item × Item))
  | iterator (current : Option Item) (rest : List Item)
  deriving DecidableEq

structure State where
  /-- The top comes first. -/
  stack : List Item
  memory : List Object
  deriving DecidableEq

/-- What contracts do: the contract, the method, the permissions, the arguments and the memory give the answer, unless
the call fails, and what has become of the memory. -/
abbrev Contracts := Bytes → Bytes → Int → Item → List Object → Option (Item × List Object)

/-- Whether a condition counts as met. -/
def Item.truth : Item → Bool
  | .null => false
  | .boolean b => b
  | .integer v => v ≠ 0
  | .bytes bs => bs.any (· ≠ 0)
  | .reference _ => true

/-- A new object behind all others, and a reference to it on the stack. -/
def allocate (o : Object) (s : State) : State := ⟨.reference s.memory.length :: s.stack, s.memory ++ [o]⟩

/-! ## Instructions -/

/-- The constant that an instruction pushes, if it pushes one. -/
def constant? (i : Instruction) : Option Item :=
  match i.integer? with
  | some v => some (.integer v)
  | none =>
    match i.op with
    | .PUSHT => some (.boolean true)
    | .PUSHF => some (.boolean false)
    | .PUSHNULL => some .null
    | .PUSHDATA1 | .PUSHDATA2 | .PUSHDATA4 => some (.bytes i.operand)
    | _ => none

/-- So many pairs from the top of a stack, each a key and the value under it, and the rest. -/
def popPairs : Nat → List Item → Option (List (Item × Item) × List Item)
  | 0, stack => some ([], stack)
  | n + 1, key :: value :: stack => (popPairs n stack).map fun (pairs, rest) => ((key, value) :: pairs, rest)
  | _, _ => none

def size? (memory : List Object) : Item → Option Nat
  | .bytes bs => some bs.length
  | .reference place =>
    match memory[place]? with
    | some (.array items) => some items.length
    | some (.map entries) => some entries.length
    | _ => none
  | _ => none

/-- Adds an item at the end of an array. -/
def append? (memory : List Object) (place : Nat) (item : Item) : Option (List Object) :=
  match memory[place]? with
  | some (.array items) => some (memory.set place (.array (items ++ [item])))
  | _ => none

/-- What a service does. An iterator is at no item before it is asked for the first one. -/
def serve (contracts : Contracts) (s : Service) (stack : List Item) (memory : List Object) : Option State :=
  match s, stack with
  | .contractCall, .bytes contract :: .bytes method :: .integer flags :: arguments :: stack =>
    (contracts contract method flags arguments memory).map fun (answer, memory) => ⟨answer :: stack, memory⟩
  | .iteratorNext, .reference place :: stack =>
    match memory[place]? with
    | some (.iterator _ (item :: rest)) =>
      some ⟨.boolean true :: stack, memory.set place (.iterator (some item) rest)⟩
    | some (.iterator _ []) => some ⟨.boolean false :: stack, memory.set place (.iterator none [])⟩
    | _ => none
  | .iteratorValue, .reference place :: stack =>
    match memory[place]? with
    | some (.iterator (some item) _) => some ⟨item :: stack, memory⟩
    | _ => none
  | _, _ => none

/-- What an instruction does that is no jump. -/
def execute (contracts : Contracts) (i : Instruction) (s : State) : Option State :=
  match constant? i with
  | some c => some ⟨c :: s.stack, s.memory⟩
  | none =>
    match i.op, s.stack with
    | .NEWARRAY0, _ => some (allocate (.array []) s)
    | .PACK, .integer n :: stack =>
      if 0 ≤ n ∧ n.toNat ≤ stack.length then
        some (allocate (.array (stack.take n.toNat)) ⟨stack.drop n.toNat, s.memory⟩)
      else none
    | .PACKMAP, .integer n :: stack =>
      if 0 ≤ n then (popPairs n.toNat stack).map fun (pairs, rest) => allocate (.map pairs) ⟨rest, s.memory⟩
      else none
    | .DUP, a :: stack => some ⟨a :: a :: stack, s.memory⟩
    | .OVER, a :: b :: stack => some ⟨b :: a :: b :: stack, s.memory⟩
    | .PICK, .integer n :: stack =>
      if 0 ≤ n then stack[n.toNat]?.map fun a => ⟨a :: stack, s.memory⟩ else none
    | .NIP, a :: _ :: stack => some ⟨a :: stack, s.memory⟩
    | .GE, .integer b :: .integer a :: stack => some ⟨.boolean (b ≤ a) :: stack, s.memory⟩
    | .SIZE, a :: stack => (size? s.memory a).map fun n => ⟨.integer n :: stack, s.memory⟩
    | .APPEND, a :: .reference place :: stack => (append? s.memory place a).map fun memory => ⟨stack, memory⟩
    | .SYSCALL, stack => i.service?.bind fun service => serve contracts service stack s.memory
    | _, _ => none

def run (contracts : Contracts) : List Instruction → State → Option State
  | [], s => some s
  | i :: is, s => (execute contracts i s).bind (run contracts is)

/-! ## Scripts -/

def fetch? (script : Bytes) (place : Nat) : Option Instruction :=
  match script.drop place with
  | [] => none
  | b :: bs =>
    (OpCode.ofByte? b).bind fun op => (Instruction.readOperand? op bs).map fun (operand, _) => ⟨op, operand⟩

def isJump (op : OpCode) : Bool := op ∈ [OpCode.JMP, .JMPIF, .JMPIFNOT]

/-- Where a jump leads that stands at `place`. -/
def target (place : Nat) (i : Instruction) : Int := place + Bytes.toIntLE i.operand

def jumps (l : List (Nat × Instruction)) : List (OpCode × Int) :=
  (l.filter fun e => isJump e.2.op).map fun e => (e.2.op, target e.1 e.2)

/-- Whether a jump is taken, and the state without the condition. -/
def branch? (op : OpCode) (s : State) : Option (Bool × State) :=
  match op, s.stack with
  | .JMP, _ => some (true, s)
  | .JMPIF, a :: stack => some (a.truth, ⟨stack, s.memory⟩)
  | .JMPIFNOT, a :: stack => some (!a.truth, ⟨stack, s.memory⟩)
  | _, _ => none

def step (contracts : Contracts) (script : Bytes) (c : Nat × State) : Option (Nat × State) :=
  (fetch? script c.1).bind fun i =>
    if isJump i.op then
      (branch? i.op c.2).bind fun (taken, s) =>
        if !taken then some (c.1 + i.size, s)
        else if 0 ≤ target c.1 i then some ((target c.1 i).toNat, s)
        else none
    else (execute contracts i c.2).map fun s => (c.1 + i.size, s)

def Steps (contracts : Contracts) (script : Bytes) : Nat × State → Nat × State → Prop :=
  Relation.ReflTransGen fun c d => step contracts script c = some d

/-- These whole instructions stand at a place of a script, one behind the other. -/
def Holds (script : Bytes) (place : Nat) (is : List Instruction) : Prop :=
  (∀ i ∈ is, i.IsWhole) ∧ is.flatMap Instruction.encode <+: script.drop place

theorem holds_flatMap {is : List Instruction} (h : ∀ i ∈ is, i.IsWhole) : Holds (is.flatMap Instruction.encode) 0 is :=
  ⟨h, List.prefix_rfl⟩

theorem holds_append {script : Bytes} {place : Nat} {is js : List Instruction} : Holds script place (is ++ js) ↔
    Holds script place is ∧ Holds script (place + Instruction.extent is) js := by
  unfold Holds
  rw [List.forall_mem_append, List.flatMap_append, ← List.drop_drop, ← Instruction.length_flatMap_encode]
  constructor
  · rintro ⟨⟨his, hjs⟩, rest, h⟩
    rw [List.append_assoc] at h
    rw [← h, List.drop_left]
    exact ⟨⟨his, List.prefix_append _ _⟩, hjs, List.prefix_append _ _⟩
  · rintro ⟨⟨his, rest, h⟩, hjs, rest', h'⟩
    rw [← h, List.drop_left] at h'
    rw [← h, ← h']
    exact ⟨⟨his, hjs⟩, rest', List.append_assoc _ _ _⟩

theorem jumps_append (l m : List (Nat × Instruction)) : jumps (l ++ m) = jumps l ++ jumps m := by
  simp [jumps]

theorem jumps_located {is : List Instruction} (h : ∀ i ∈ is, isJump i.op = false) (offset : Nat) :
    jumps (Instruction.located offset is) = [] := by
  have hfilter : ∀ e ∈ Instruction.located offset is, ¬ isJump e.2.op = true := by
    intro e he
    have hmem := List.mem_map_of_mem (f := (·.2)) he
    rw [Instruction.map_snd_located] at hmem
    rw [h e.2 hmem]
    exact Bool.false_ne_true
  rw [jumps, List.filter_eq_nil_iff.mpr hfilter, List.map_nil]

theorem fetch?_of_holds {script : Bytes} {place : Nat} {i : Instruction} {is : List Instruction}
    (h : Holds script place (i :: is)) : fetch? script place = some i := by
  obtain ⟨hwhole, rest, hrest⟩ := h
  rw [List.flatMap_cons, List.append_assoc, Instruction.encode_append] at hrest
  unfold fetch?
  rw [← hrest]
  dsimp only
  rw [i.op.ofByte?_byte, Option.bind_some, Instruction.readOperand?_operand (hwhole i List.mem_cons_self)]
  rfl

section

variable {contracts : Contracts}

theorem run_append (is js : List Instruction) (s : State) :
    run contracts (is ++ js) s = (run contracts is s).bind (run contracts js) := by
  induction is generalizing s with
  | nil => rfl
  | cons i is ih =>
    rw [List.cons_append, run, run]
    cases execute contracts i s with
    | none => rfl
    | some t => exact ih t

theorem constant?_of_integer? {i : Instruction} {v : Int} (h : i.integer? = some v) :
    constant? i = some (.integer v) := by
  rw [constant?, h]

theorem run_of_execute {i : Instruction} {s t : State} (h : execute contracts i s = some t) (is : List Instruction) :
    run contracts (i :: is) s = run contracts is t := by
  rw [run, h]
  rfl

theorem run_constant {i : Instruction} {c : Item} (h : constant? i = some c) (is : List Instruction) (s : State) :
    run contracts (i :: is) s = run contracts is ⟨c :: s.stack, s.memory⟩ := by
  refine run_of_execute ?_ is
  rw [execute, h]

/-! What the instructions of a loop do at the front of others. -/

section Front

variable (is : List Instruction) (stack : List Item) (memory : List Object)

@[simp] theorem run_nil (s : State) : run contracts [] s = some s := rfl

@[simp] theorem run_dup (a : Item) :
    run contracts (⟨.DUP, []⟩ :: is) ⟨a :: stack, memory⟩ = run contracts is ⟨a :: a :: stack, memory⟩ := rfl

@[simp] theorem run_over (a b : Item) :
    run contracts (⟨.OVER, []⟩ :: is) ⟨a :: b :: stack, memory⟩ = run contracts is ⟨b :: a :: b :: stack, memory⟩ :=
  rfl

@[simp] theorem run_nip (a b : Item) :
    run contracts (⟨.NIP, []⟩ :: is) ⟨a :: b :: stack, memory⟩ = run contracts is ⟨a :: stack, memory⟩ := rfl

@[simp] theorem run_newArray : run contracts (⟨.NEWARRAY0, []⟩ :: is) ⟨stack, memory⟩ =
    run contracts is ⟨.reference memory.length :: stack, memory ++ [.array []]⟩ := rfl

@[simp] theorem run_ge (a b : Int) : run contracts (⟨.GE, []⟩ :: is) ⟨.integer b :: .integer a :: stack, memory⟩ =
    run contracts is ⟨.boolean (b ≤ a) :: stack, memory⟩ := rfl

/-- Two instructions, the first of which pushes the depth. -/
theorem run_pick {depth : Instruction} {n : Nat} (h : depth.integer? = some (n : Int)) {a : Item}
    (ha : stack[n]? = some a) :
    run contracts (depth :: ⟨.PICK, []⟩ :: is) ⟨stack, memory⟩ = run contracts is ⟨a :: stack, memory⟩ := by
  have hpick : execute contracts ⟨.PICK, []⟩ ⟨.integer n :: stack, memory⟩ = some ⟨a :: stack, memory⟩ := by
    rw [execute, show constant? ⟨.PICK, []⟩ = none from rfl]
    dsimp only
    rw [if_pos (Int.natCast_nonneg n), Int.toNat_natCast, ha]
    rfl
  rw [run_constant (constant?_of_integer? h), run_of_execute hpick]

theorem run_size {place : Nat} {items : List Item} (h : memory[place]? = some (.array items)) :
    run contracts (⟨.SIZE, []⟩ :: is) ⟨.reference place :: stack, memory⟩ =
      run contracts is ⟨.integer items.length :: stack, memory⟩ := by
  have hsize : execute contracts ⟨.SIZE, []⟩ ⟨.reference place :: stack, memory⟩ =
      some ⟨.integer items.length :: stack, memory⟩ := by
    rw [execute, show constant? ⟨.SIZE, []⟩ = none from rfl]
    dsimp only
    rw [size?, h]
    rfl
  exact run_of_execute hsize is

theorem run_appendItem {place : Nat} {items : List Item} (h : memory[place]? = some (.array items)) (a : Item) :
    run contracts (⟨.APPEND, []⟩ :: is) ⟨a :: .reference place :: stack, memory⟩ =
      run contracts is ⟨stack, memory.set place (.array (items ++ [a]))⟩ := by
  have happend : execute contracts ⟨.APPEND, []⟩ ⟨a :: .reference place :: stack, memory⟩ =
      some ⟨stack, memory.set place (.array (items ++ [a]))⟩ := by
    rw [execute, show constant? ⟨.APPEND, []⟩ = none from rfl]
    dsimp only
    rw [append?, h]
    rfl
  exact run_of_execute happend is

theorem run_service (s : Service) : run contracts (⟨.SYSCALL, s.hash⟩ :: is) ⟨stack, memory⟩ =
    (serve contracts s stack memory).bind (run contracts is) := by
  have hservice : Instruction.service? ⟨.SYSCALL, s.hash⟩ = some s := by
    rw [Instruction.service?, if_pos rfl, s.ofHash?_hash]
  have hserve : execute contracts ⟨.SYSCALL, s.hash⟩ ⟨stack, memory⟩ = serve contracts s stack memory := by
    rw [execute, show constant? ⟨.SYSCALL, s.hash⟩ = none from rfl]
    dsimp only
    rw [hservice]
    rfl
  rw [run, hserve]

end Front

section Gather

variable {count : Instruction} (stack : List Item) (memory : List Object)

theorem run_pack {items : List Item} (h : count.integer? = some (items.length : Int)) :
    run contracts [count, ⟨.PACK, []⟩] ⟨items ++ stack, memory⟩ =
      some (allocate (.array items) ⟨stack, memory⟩) := by
  have hpack : execute contracts ⟨.PACK, []⟩ ⟨.integer items.length :: (items ++ stack), memory⟩ =
      some (allocate (.array items) ⟨stack, memory⟩) := by
    rw [execute, show constant? ⟨.PACK, []⟩ = none from rfl]
    dsimp only
    rw [Int.toNat_natCast, List.take_left, List.drop_left, List.length_append]
    exact if_pos ⟨Int.natCast_nonneg _, Nat.le_add_right _ _⟩
  rw [run_constant (constant?_of_integer? h), run_of_execute hpack, run_nil]

theorem popPairs_flatMap (pairs : List (Item × Item)) :
    popPairs pairs.length (pairs.flatMap (fun p => [p.1, p.2]) ++ stack) = some (pairs, stack) := by
  induction pairs with
  | nil => rfl
  | cons p pairs ih =>
    rw [List.flatMap_cons, List.length_cons, List.append_assoc, List.cons_append, List.cons_append, List.nil_append,
      popPairs, ih]
    rfl

theorem run_packMap {pairs : List (Item × Item)} (h : count.integer? = some (pairs.length : Int)) :
    run contracts [count, ⟨.PACKMAP, []⟩] ⟨pairs.flatMap (fun p => [p.1, p.2]) ++ stack, memory⟩ =
      some (allocate (.map pairs) ⟨stack, memory⟩) := by
  have hpack : execute contracts ⟨.PACKMAP, []⟩
      ⟨.integer pairs.length :: (pairs.flatMap (fun p => [p.1, p.2]) ++ stack), memory⟩ =
      some (allocate (.map pairs) ⟨stack, memory⟩) := by
    rw [execute, show constant? ⟨.PACKMAP, []⟩ = none from rfl]
    dsimp only
    rw [Int.toNat_natCast, popPairs_flatMap]
    exact if_pos (Int.natCast_nonneg _)
  rw [run_constant (constant?_of_integer? h), run_of_execute hpack, run_nil]

end Gather

theorem execute_of_isJump {i : Instruction} (h : isJump i.op = true) (s : State) : execute contracts i s = none := by
  obtain ⟨op, operand⟩ := i
  have hop : op ∈ [OpCode.JMP, .JMPIF, .JMPIFNOT] := of_decide_eq_true h
  simp only [List.mem_cons, List.not_mem_nil, or_false] at hop
  rcases hop with rfl | rfl | rfl <;> rfl

/-- What is run without steps has no jumps. -/
theorem not_isJump_of_run {is : List Instruction} {s t : State} (h : run contracts is s = some t) :
    ∀ i ∈ is, isJump i.op = false := by
  induction is generalizing s with
  | nil => exact fun i hi => absurd hi List.not_mem_nil
  | cons i is ih =>
    obtain ⟨u, hu, ht⟩ := Option.bind_eq_some_iff.mp h
    refine List.forall_mem_cons.mpr ⟨?_, ih ht⟩
    by_contra hjump
    rw [execute_of_isJump (Bool.not_eq_false _ ▸ hjump)] at hu
    cases hu

variable {script : Bytes} {place : Nat}

/-- A script goes through the instructions that stand in it. -/
theorem steps_run {is : List Instruction} (hscript : Holds script place is) {s t : State}
    (h : run contracts is s = some t) : Steps contracts script (place, s) (place + Instruction.extent is, t) := by
  induction is generalizing place s with
  | nil =>
    cases h
    exact .refl
  | cons i is ih =>
    have hjump := not_isJump_of_run h i List.mem_cons_self
    obtain ⟨u, hu, ht⟩ := Option.bind_eq_some_iff.mp h
    have hstep : step contracts script (place, s) = some (place + i.size, u) := by
      unfold step
      rw [fetch?_of_holds hscript, Option.bind_some, hjump, if_neg Bool.false_ne_true, hu]
      rfl
    rw [← List.singleton_append] at hscript
    obtain ⟨-, hrest⟩ := holds_append.mp hscript
    have hsteps := ih hrest ht
    rw [Instruction.extent_cons, ← Nat.add_assoc]
    exact hsteps.head hstep

section Jump

variable {i : Instruction} {is : List Instruction} (hscript : Holds script place (i :: is))
variable (hjump : isJump i.op = true) {s t : State}
include hscript hjump

theorem step_of_taken (h : branch? i.op s = some (true, t)) {n : Nat} (hn : target place i = n) :
    step contracts script (place, s) = some (n, t) := by
  unfold step
  rw [fetch?_of_holds hscript, Option.bind_some, if_pos hjump, h, Option.bind_some, hn]
  dsimp only
  rw [if_neg (by decide), if_pos (Int.natCast_nonneg n), Int.toNat_natCast]

theorem step_of_not_taken (h : branch? i.op s = some (false, t)) :
    step contracts script (place, s) = some (place + i.size, t) := by
  unfold step
  rw [fetch?_of_holds hscript, Option.bind_some, if_pos hjump, h]
  rfl

end Jump

/-- A script does not go on from where no step leads further, so that it cannot end in two ways. -/
theorem Steps.unique {c d e : Nat × State} (hd : Steps contracts script c d) (he : Steps contracts script c e)
    (hd' : step contracts script d = none) (he' : step contracts script e = none) : d = e := by
  have hstuck : ∀ {a b}, step contracts script a = none → Steps contracts script a b → b = a := by
    intro a b ha hab
    rcases Relation.ReflTransGen.cases_head hab with rfl | ⟨_, h, -⟩
    · rfl
    · rw [ha] at h
      cases h
  have hunique : Relator.RightUnique fun a b => step contracts script a = some b :=
    fun _ _ _ hb hc => Option.some.inj (hb.symm.trans hc)
  rcases Relation.ReflTransGen.total_of_right_unique hunique hd he with h | h
  · exact (hstuck hd' h).symm
  · exact hstuck he' h

theorem step_length (s : State) : step contracts script (script.length, s) = none := by
  simp [step, fetch?]

end

/-! ## Values -/

/-- What an item stands for once references are followed. -/
inductive Value where
  | null
  | boolean (value : Bool)
  | integer (value : Int)
  | bytes (value : Bytes)
  | array (items : List Value)
  | map (entries : List (Value × Value))

mutual

/-- The item stands for the value. A map has its pairs in any order. -/
inductive Shows (memory : List Object) : Value → Item → Prop
  | null : Shows memory .null .null
  | boolean (b : Bool) : Shows memory (.boolean b) (.boolean b)
  | integer (v : Int) : Shows memory (.integer v) (.integer v)
  | bytes (bs : Bytes) : Shows memory (.bytes bs) (.bytes bs)
  | array {place : Nat} {values : List Value} {items : List Item} (hplace : memory[place]? = some (.array items))
    (hitems : ShowsItems memory values items) : Shows memory (.array values) (.reference place)
  | map {place : Nat} {values : List (Value × Value)} {entries pairs : List (Item × Item)}
    (hplace : memory[place]? = some (.map entries)) (hperm : pairs.Perm entries)
    (hpairs : ShowsPairs memory values pairs) : Shows memory (.map values) (.reference place)

inductive ShowsItems (memory : List Object) : List Value → List Item → Prop
  | nil : ShowsItems memory [] []
  | cons {v : Value} {i : Item} {vs : List Value} {is : List Item} (head : Shows memory v i)
    (tail : ShowsItems memory vs is) : ShowsItems memory (v :: vs) (i :: is)

inductive ShowsPairs (memory : List Object) : List (Value × Value) → List (Item × Item) → Prop
  | nil : ShowsPairs memory [] []
  | cons {k v : Value} {i j : Item} {vs : List (Value × Value)} {is : List (Item × Item)} (key : Shows memory k i)
    (value : Shows memory v j) (tail : ShowsPairs memory vs is) : ShowsPairs memory ((k, v) :: vs) ((i, j) :: is)

end

variable {memory memory' : List Object}

theorem showsItems_iff {vs : List Value} {is : List Item} :
    ShowsItems memory vs is ↔ List.Forall₂ (Shows memory) vs is := by
  constructor
  · intro h
    induction vs generalizing is with
    | nil =>
      cases h
      exact .nil
    | cons v vs ih =>
      cases h with
      | cons head tail => exact .cons head (ih tail)
  · intro h
    induction h with
    | nil => exact .nil
    | cons head _ ih => exact .cons head ih

theorem ShowsPairs.length_eq {vs : List (Value × Value)} {is : List (Item × Item)} (h : ShowsPairs memory vs is) :
    is.length = vs.length := by
  induction vs generalizing is with
  | nil =>
    cases h
    rfl
  | cons v vs ih =>
    cases h with
    | cons key value tail => rw [List.length_cons, List.length_cons, ih tail]

theorem getElem?_of_grown (h : memory <+: memory') {place : Nat} {o : Object} (ho : memory[place]? = some o) :
    memory'[place]? = some o := by
  obtain ⟨more, rfl⟩ := h
  have hlt : place < memory.length := (List.getElem?_eq_some_iff.mp ho).1
  rw [List.getElem?_append_left hlt, ho]

mutual

/-- Objects that are put behind do not change what an item stands for. -/
theorem Shows.mono (h : memory <+: memory') {v : Value} {i : Item} (hv : Shows memory v i) : Shows memory' v i :=
  match hv with
  | .null => .null
  | .boolean b => .boolean b
  | .integer v => .integer v
  | .bytes bs => .bytes bs
  | .array hplace hitems => .array (getElem?_of_grown h hplace) (hitems.mono h)
  | .map hplace hperm hpairs => .map (getElem?_of_grown h hplace) hperm (hpairs.mono h)

theorem ShowsItems.mono (h : memory <+: memory') {vs : List Value} {is : List Item}
    (hvs : ShowsItems memory vs is) : ShowsItems memory' vs is :=
  match hvs with
  | .nil => .nil
  | .cons head tail => .cons (head.mono h) (tail.mono h)

theorem ShowsPairs.mono (h : memory <+: memory') {vs : List (Value × Value)} {is : List (Item × Item)}
    (hvs : ShowsPairs memory vs is) : ShowsPairs memory' vs is :=
  match hvs with
  | .nil => .nil
  | .cons key value tail => .cons (key.mono h) (value.mono h) (tail.mono h)

end

end Machine

end N3
