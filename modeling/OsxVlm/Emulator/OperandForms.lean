import OsxVlm.Emulator.FrameInstructions
import OsxVlm.Emulator.LiveStack

/-!
# Immediate and popped operands

An instruction takes the byte in it as a fixnum, or pops its operand.  Most of them go to one
label from both forms; some have code of their own for the immediate operand, and two go to
the label of another instruction.
-/

namespace Ivory.Execute

attribute [local instance] neZero_four

/-- The instructions that are implemented for both operands. -/
inductive TwoForms
  | rplaca | rplacd
  | eq | eqNoPop | eql | eqlNoPop | equalNumber | equalNumberNoPop
  | greaterp | greaterpNoPop | lessp | lesspNoPop | logtest | logtestNoPop
  | endp | plusp | minusp | zerop
  | add | sub | unaryMinus | multiply
  | quotient | floor | ceiling | truncate | round | rationalQuotient
  | max | min | logand | logior | logxor | ash | lsh | rot
  | plus32Bit | difference32Bit | multiplyBignumStep | divideBignumStep
  | push
  | aref1 | aset1 | aloc1 | arrayLeader | storeArrayLeader | alocLeader
  | block1Write | block2Write | block3Write
  | returnMultiple | returnKludge
  | bindLocativeToValue | unbindN | restoreBindingStack
  | instanceRef | instanceSet | instanceLoc
  | unsignedLessp | unsignedLesspNoPop
  | alu | allocateListBlock | allocateStructureBlock
  | pointerPlus | pointerDifference | tag | setTag
  | storeConditional | memoryWrite | pStoreContents
  deriving DecidableEq

namespace TwoForms

/-- Whether the instruction is decoded by `Decode8BitUnsignedOperandFunction`. -/
def unsigned : TwoForms → Bool
  | unaryMinus | add | sub | plus32Bit | difference32Bit | multiplyBignumStep | divideBignumStep
  | push | aref1 | aset1 | aloc1 | arrayLeader | storeArrayLeader | alocLeader
  | returnMultiple | returnKludge | unbindN | restoreBindingStack
  | instanceRef | instanceSet | instanceLoc | unsignedLessp | unsignedLesspNoPop
  | allocateListBlock | allocateStructureBlock | setTag => true
  | _ => false

/-- `cp->operand`. -/
def decode (i : TwoForms) (byte : BitVec 8) : Integer :=
  if i.unsigned then byte.setWidth 32 else byte.signExtend 32

/-- The code at the label of the instruction. -/
def execute (fuel : Nat) (m : Machine) (op2 : Operand) : TwoForms → Run Machine
  | rplaca => m.rplaca op2 fuel
  | rplacd => m.rplacd op2 fuel
  | eq => m.onStack fun s => Execute.eq Stack.setPredicate s op2
  | eqNoPop => m.onStack fun s => Execute.eq Stack.pushPredicate s op2
  | eql => m.onStack fun s => Execute.eql Stack.setPredicate s op2
  | eqlNoPop => m.onStack fun s => Execute.eql Stack.pushPredicate s op2
  | equalNumber => m.onStack fun s => Execute.equalNumber Stack.setPredicate s op2
  | equalNumberNoPop => m.onStack fun s => Execute.equalNumber Stack.pushPredicate s op2
  | greaterp => m.onStack fun s => Execute.greaterp Stack.setPredicate s op2
  | greaterpNoPop => m.onStack fun s => Execute.greaterp Stack.pushPredicate s op2
  | lessp => m.onStack fun s => Execute.lessp Stack.setPredicate s op2
  | lesspNoPop => m.onStack fun s => Execute.lessp Stack.pushPredicate s op2
  | logtest => m.onStack fun s => Execute.logtest Stack.setPredicate s op2
  | logtestNoPop => m.onStack fun s => Execute.logtest Stack.pushPredicate s op2
  | endp => m.onStack fun s => Execute.endp s op2
  | plusp => m.onStack fun s => Execute.plusp s op2
  | minusp => m.onStack fun s => Execute.minusp s op2
  | zerop => m.onStack fun s => Execute.zerop s op2
  | add => m.onStack fun s => Execute.add s op2
  | sub => m.onStack fun s => Execute.sub s op2
  | unaryMinus => m.onStack fun s => Execute.unaryMinus s op2
  | multiply => m.onStack fun s => Execute.multiply s op2
  | quotient => m.onStack fun s => Execute.quotient s op2
  | floor => m.onStack fun s => Execute.floor s op2
  | ceiling => m.onStack fun s => Execute.ceiling s op2
  | truncate => m.onStack fun s => Execute.truncate s op2
  | round => m.onStack fun s => Execute.round s op2
  | rationalQuotient => m.onStack fun s => Execute.rationalQuotient s op2
  | max => m.onStack fun s => Execute.max s op2
  | min => m.onStack fun s => Execute.min s op2
  | logand => m.onStack fun s => Execute.logand s op2
  | logior => m.onStack fun s => Execute.logior s op2
  | logxor => m.onStack fun s => Execute.logxor s op2
  | ash => m.onStack fun s => Execute.ash s op2
  | lsh => m.onStack fun s => Execute.lsh s op2
  | rot => m.onStack fun s => Execute.rot s op2
  | plus32Bit => m.onStack fun s => Execute.plus32Bit s op2
  | difference32Bit => m.onStack fun s => Execute.difference32Bit s op2
  | multiplyBignumStep => m.onStack fun s => Execute.multiplyBignumStep s op2
  | divideBignumStep => m.onStack fun s => Execute.divideBignumStep s op2
  | push => m.onStack pushPop
  | aref1 => m.aref1 op2 fuel
  | aset1 => m.aset1 op2 fuel
  | aloc1 => m.aloc1 op2 fuel
  | arrayLeader => m.arrayLeader op2 fuel
  | storeArrayLeader => m.storeArrayLeader op2 fuel
  | alocLeader => m.alocLeader op2 fuel
  | block1Write => m.blockWrite op2 1
  | block2Write => m.blockWrite op2 2
  | block3Write => m.blockWrite op2 3
  | returnMultiple => m.returnMultiple op2 fuel
  | returnKludge => m.returnKludge op2 fuel
  | bindLocativeToValue => m.bindLocativeToValue op2 fuel
  | unbindN => m.unbindN op2 fuel
  | restoreBindingStack => m.restoreBindingStack op2 fuel
  | instanceRef => m.instanceRef op2 fuel
  | instanceSet => m.instanceSet op2 fuel
  | instanceLoc => m.instanceLoc op2 fuel
  | unsignedLessp => m.onStack fun s => Execute.unsignedLessp Stack.setPredicate s op2
  | unsignedLesspNoPop => m.onStack fun s => Execute.unsignedLessp Stack.pushPredicate s op2
  | alu => m.aluInstruction op2
  | allocateListBlock => m.allocateListBlock op2
  | allocateStructureBlock => m.allocateStructureBlock op2
  | pointerPlus => m.onStack fun s => Execute.pointerPlus s op2
  | pointerDifference => m.onStack fun s => Execute.pointerDifference s op2
  | tag => m.onStack fun s => Execute.tag s op2
  | setTag => m.onStack fun s => Execute.setTag s op2
  | storeConditional => m.storeConditional op2 fuel
  | memoryWrite => m.memoryWrite op2
  | pStoreContents => m.pStoreContents op2 fuel

/-- The code of the immediate form; the operand of `UnaryMinus` is the byte itself. -/
def immediate (fuel : Nat) (m : Machine) (byte : BitVec 8) (i : TwoForms) : Run Machine :=
  let operand := i.decode byte
  match i with
  | eq => m.onStack fun s => eqImmediate Stack.setPredicate s operand
  | eqNoPop => m.onStack fun s => eqImmediate Stack.pushPredicate s operand
  | eql => m.onStack fun s => eqlImmediate Stack.setPredicate s operand
  | eqlNoPop => m.onStack fun s => eqlImmediate Stack.pushPredicate s operand
  | equalNumber => m.onStack fun s => equalNumberImmediate Stack.setPredicate s operand
  | equalNumberNoPop => m.onStack fun s => equalNumberImmediate Stack.pushPredicate s operand
  | endp => m.onStack endpImmediate
  | plusp => m.onStack fun s => pluspImmediate s operand
  | minusp => m.onStack fun s => minuspImmediate s operand
  | zerop => m.onStack fun s => zeropImmediate s operand
  | unaryMinus => m.onStack fun s => unaryMinusImmediate s byte
  | plus32Bit => m.onStack fun s => plus32BitImmediate s operand
  | difference32Bit => m.onStack fun s => difference32BitImmediate s operand
  | push => m.onStack fun s => pushImmediate s operand
  | unsignedLessp => m.onStack fun s => unsignedLesspImmediate Stack.setPredicate s operand
  | unsignedLesspNoPop => m.onStack fun s => unsignedLesspImmediate Stack.pushPredicate s operand
  | pointerPlus => m.onStack fun s => pointerPlusImmediate s operand
  | pointerDifference => m.onStack fun s => pointerDifferenceImmediate s operand
  | tag => m.onStack tagImmediate
  | setTag => m.onStack fun s => setTagImmediate s operand
  | instanceLoc => instanceSet.execute fuel m (.immediate operand)
  | allocateStructureBlock => allocateListBlock.execute fuel m (.immediate operand)
  | i => i.execute fuel m (.immediate operand)

/-- The code of the popped form; `PushPop` leaves its operand where it is. -/
def popped (fuel : Nat) (m : Machine) : TwoForms → Run Machine
  | push => push.execute fuel m (.word m.sp)
  | i => i.execute fuel (m.pop 1) (.word m.sp)

/-- A return goes on at the `pc` that it set. -/
def returns : TwoForms → Bool
  | returnMultiple | returnKludge => true
  | _ => false

/-- The machine at the next dispatch. -/
def dispatched (i : TwoForms) (nextPc : LispObj) (m : Machine) : Machine :=
  { m with
    pc := if i.returns then m.pc else nextPc
    restartsp := m.sp }

def executeImmediate (i : TwoForms) (byte : BitVec 8) (nextPc : LispObj) (m : Machine)
    (fuel : Nat) : Run Machine :=
  i.dispatched nextPc <$> i.immediate fuel m byte

def executePopped (i : TwoForms) (nextPc : LispObj) (m : Machine) (fuel : Nat) : Run Machine :=
  i.dispatched nextPc <$> i.popped fuel m

end TwoForms

/-! ### The same results -/

/-- The machines are the same but for what is left over above the stack pointer. -/
structure Machine.Agrees (m n : Machine) : Prop where
  rest : n = { m with stack := n.stack }
  live : ∀ i ≤ m.sp, n.stack i = m.stack i

/-- The same machine, or the same kind of exception. -/
def SameResult : Except Exception Machine → Except Exception Machine → Prop
  | .ok m, .ok n => m.Agrees n
  | .error e, .error f => e = f
  | _, _ => False

/-- The one execution ends as the other does, or neither ends. -/
structure SameExecution (x y : Nat → Run Machine) : Prop where
  left : ∀ fuel r, (x fuel).run = some r → ∃ fuel' r', (y fuel').run = some r' ∧ SameResult r r'
  right : ∀ fuel r', (y fuel).run = some r' → ∃ fuel' r, (x fuel').run = some r ∧ SameResult r r'

/-- The machine with another word above the top of its stack, which is not part of it. -/
def Machine.withAbove (m : Machine) (o : LispObj) : Machine :=
  { m with stack := Function.update m.stack (m.sp + 1) o }

def Machine.pushFixnum (m : Machine) (n : Integer) : Machine :=
  m.withOperands (m.operands.pushFixnum n)

/-- What the claim of the operand forms asks, whatever the word above the top of the stack is. -/
def FormsAgree (i : TwoForms) (byte : BitVec 8) (nextPc : LispObj) (m : Machine) : Prop :=
  ∀ above, SameExecution (i.executeImmediate byte nextPc (m.withAbove above))
    (i.executePopped nextPc (m.pushFixnum (i.decode byte)))

/-- The word above the top of the stack makes no difference to the immediate form. -/
def Overlooks (i : TwoForms) (byte : BitVec 8) (nextPc : LispObj) (m : Machine) : Prop :=
  ∀ above above', SameExecution (i.executeImmediate byte nextPc (m.withAbove above))
    (i.executeImmediate byte nextPc (m.withAbove above'))

/-! ### When the forms agree -/

def Completes {α : Type} (x : Nat → Run α) : Prop := ∃ fuel a, (x fuel).run = some (.ok a)

def TrapsWith {α : Type} (x : Nat → Run α) (e : Exception) : Prop :=
  ∃ fuel, (x fuel).run = some (.error e)

/-- Neither completes, and they take the same exceptions. -/
structure TrapAlike {α β : Type} (x : Nat → Run α) (y : Nat → Run β) : Prop where
  left : ¬ Completes x
  right : ¬ Completes y
  traps : ∀ e, TrapsWith x e ↔ TrapsWith y e

namespace Machine

variable (m : Machine) (n : Integer)

/-- `InstanceLoc` on the top of the stack. -/
def slotLocated (fuel : Nat) : Run Integer :=
  m.locateArbitraryInstanceVariable fuel m.top ⟨typeFixnum, n⟩

/-- The cell that `InstanceSet` stores into; its instance is below the top. -/
def slotStored (fuel : Nat) : Run (Integer × LispObj) := do
  let i ← m.locateArbitraryInstanceVariable fuel (m.stack (m.sp - 1)) ⟨typeFixnum, n⟩
  m.memoryRead fuel .dataWrite i

/-- The blocks of the cache are not those of the area on the stack, or too small. -/
def Refuses (cache : AllocationCache) : Prop :=
  objectEqP cache.area m.top = false ∨ cache.length < n

/-- Both allocations are refused, or both allocate nothing at one address. -/
def AllocateAlike : Prop :=
  m.Refuses n m.listCache ∧ m.Refuses n m.structureCache ∨
    ¬ m.Refuses n m.listCache ∧ ¬ m.Refuses n m.structureCache ∧ n = 0 ∧
      m.listCache.address = m.structureCache.address

/-- The words that the binding is pushed in leave the popped operand, or the store of the
operand traps. -/
def BindingApart : Prop :=
  tagType m.top.tag = typeLocative → ∀ fuel b, (m.pushBinding fuel).run = some (.ok b) →
    (b.stack (m.sp + 1)).cdrNext = ⟨typeFixnum, n⟩ ∨
      ¬ Completes fun fuel => b.memoryRead fuel .bindWrite m.top.data

end Machine

/-- The condition of the claim: what reads memory is not to see the word above the top of the
stack. -/
def FormsMeet (i : TwoForms) (byte : BitVec 8) (nextPc : LispObj) (m : Machine) : Prop :=
  let n := i.decode byte
  match i with
  | .equalNumber | .equalNumberNoPop => tagType m.top.tag = typeFixnum
  | .allocateStructureBlock => m.AllocateAlike n
  | .instanceLoc =>
      ∀ above, TrapAlike ((m.withAbove above).slotStored n)
        ((m.withAbove ⟨typeFixnum, n⟩).slotLocated n)
  | .bindLocativeToValue =>
      Overlooks i byte nextPc m ∧ (m.withAbove ⟨typeFixnum, n⟩).BindingApart n
  | .rplaca | .rplacd | .aref1 | .aset1 | .aloc1 | .arrayLeader | .storeArrayLeader | .alocLeader
  | .returnMultiple | .returnKludge | .unbindN | .instanceRef | .instanceSet | .storeConditional
  | .pStoreContents => Overlooks i byte nextPc m
  | _ => True

/-! ### Agreement -/

section Agreement

variable {m n l : Machine}

theorem Machine.Agrees.refl (m : Machine) : m.Agrees m := ⟨rfl, fun _ _ => rfl⟩

theorem Machine.Agrees.sp (h : m.Agrees n) : n.sp = m.sp := by
  rw [h.rest]

theorem Machine.Agrees.symm (h : m.Agrees n) : n.Agrees m := by
  refine ⟨?_, fun i hi => (h.live i (h.sp ▸ hi)).symm⟩
  rw [h.rest]

theorem Machine.Agrees.trans (h : m.Agrees n) (h' : n.Agrees l) : m.Agrees l := by
  refine ⟨?_, fun i hi => (h'.live i (by rw [h.sp]; exact hi)).trans (h.live i hi)⟩
  rw [h'.rest, h.rest]

variable {r r' r'' : Except Exception Machine}

theorem SameResult.refl (r : Except Exception Machine) : SameResult r r := by
  cases r with
  | ok m => exact Machine.Agrees.refl m
  | error e => rfl

theorem SameResult.symm (h : SameResult r r') : SameResult r' r := by
  cases r <;> cases r'
  · exact Eq.symm h
  · exact h.elim
  · exact h.elim
  · exact Machine.Agrees.symm h

theorem SameResult.trans (h : SameResult r r') (h' : SameResult r' r'') : SameResult r r'' := by
  cases r <;> cases r' <;> cases r'' <;> try exact h.elim
  · exact Eq.trans h h'
  · exact h'.elim
  · exact h'.elim
  · exact Machine.Agrees.trans h h'

variable {x y z : Nat → Run Machine}

theorem SameExecution.refl (x : Nat → Run Machine) : SameExecution x x :=
  ⟨fun fuel r h => ⟨fuel, r, h, .refl r⟩, fun fuel r h => ⟨fuel, r, h, .refl r⟩⟩

theorem SameExecution.symm (h : SameExecution x y) : SameExecution y x := by
  constructor
  · intro fuel r hr
    obtain ⟨fuel', r', hr', hsame⟩ := h.right fuel r hr
    exact ⟨fuel', r', hr', hsame.symm⟩
  · intro fuel r hr
    obtain ⟨fuel', r', hr', hsame⟩ := h.left fuel r hr
    exact ⟨fuel', r', hr', hsame.symm⟩

theorem SameExecution.trans (h : SameExecution x y) (h' : SameExecution y z) :
    SameExecution x z := by
  constructor
  · intro fuel r hr
    obtain ⟨fuel', r', hr', hsame⟩ := h.left fuel r hr
    obtain ⟨fuel'', r'', hr'', hsame'⟩ := h'.left fuel' r' hr'
    exact ⟨fuel'', r'', hr'', hsame.trans hsame'⟩
  · intro fuel r hr
    obtain ⟨fuel', r', hr', hsame⟩ := h'.right fuel r hr
    obtain ⟨fuel'', r'', hr'', hsame'⟩ := h.right fuel' r' hr'
    exact ⟨fuel'', r'', hr'', hsame'.trans hsame⟩

end Agreement

end Ivory.Execute
