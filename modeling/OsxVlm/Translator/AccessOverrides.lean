import Mathlib
import OsxVlm.Translator.VMAccess

/-!
# The memory-access macros

Each macro expands to a list of instructions that depends on two flags of the
build.  The originals are kept beside the overrides; what both flags off expand
to is the original.
-/

namespace VMAccess

open Alpha

/-- `*data-store-first*` and `*explicit-fault-edges*` -/
structure Modes where
  dataStoreFirst : Bool
  explicitFaultEdges : Bool

def vmLdl (f : Modes) (a b : Register) : Instr := .vm f.explicitFaultEdges (.ldl a b)
def vmStl (f : Modes) (a b : Register) : Instr := .vm f.explicitFaultEdges (.stl a b)
def vmLdqU (f : Modes) (a b : Register) : Instr := .vm f.explicitFaultEdges (.ldqU a b)
def vmStqU (f : Modes) (a b : Register) : Instr := .vm f.explicitFaultEdges (.stqU a b)

def when (c : Bool) (is : List Instr) : List Instr := if c then is else []

@[simp] theorem when_true (is : List Instr) : when true is = is := rfl
@[simp] theorem when_false (is : List Instr) : when false is = [] := rfl

theorem when_append (c : Bool) (is js : List Instr) : when c (is ++ js) = when c is ++ when c js := by
  cases c <;> rfl

/-! ### Registers -/

/-- Registers that a macro writes are apart from each other and from those it reads. -/
structure CheckTemporaries (lives temps : List Register) : Prop where
  apart : temps.Nodup
  notLive : ∀ r ∈ temps, r ∉ ivory :: .zero :: lives

structure ReadRegisters where
  vma : Register
  tag : Register
  data : Register
  temp : Register
  temp2 : Register
  check : CheckTemporaries [vma] [tag, data, temp2]

structure WriteRegisters where
  vma : Register
  tag : Register
  data : Register
  temp : Register
  temp2 : Register
  temp3 : Register
  temp4 : Register

def WriteRegisters.temps (o : WriteRegisters) : List Register :=
  [o.temp, o.temp2, o.temp3, o.temp4]

structure VMWrite extends WriteRegisters where
  check : CheckTemporaries [vma, tag, data] toWriteRegisters.temps

/-- What a `memory-write` is expanded with. -/
structure MemoryWrite extends WriteRegisters where
  temp5 : Option Register
  memoizedBase : Option Register
  memoizedLimit : Option Register
  cantBeInCache : Bool
  check : CheckTemporaries
    ([vma, tag, data] ++
      if cantBeInCache then [] else memoizedBase.toList ++ memoizedLimit.toList)
    (temp5.toList ++ toWriteRegisters.temps)

structure DumpRegisters where
  vma : Register
  sca : Register
  count : Register
  temp : Register
  temp2 : Register
  check : CheckTemporaries [] [vma, sca, count, temp, temp2]

/-! ### `VM-read` -/

namespace Original

def vmRead (o : ReadRegisters) (prefetchp : Bool) : List Instr :=
  [addq o.vma ivory o.temp2,
    s4addq o.temp2 .zero o.data] ++
  when prefetchp [.fetch o.temp2] ++
  [.vm false (.ldqU o.tag o.temp2)] ++
  when prefetchp [.fetch o.data] ++
  [.vm false (.ldl o.data o.data),
    extbl o.tag o.temp2 o.tag]

end Original

def vmRead (f : Modes) (o : ReadRegisters) (prefetchp : Bool) : List Instr :=
  [addq o.vma ivory o.temp2,
    s4addq o.temp2 .zero o.data] ++
  when prefetchp [.fetch o.temp2] ++
  [if f.explicitFaultEdges then .vm true (.ldb o.tag o.temp2) else vmLdqU f o.tag o.temp2] ++
  when prefetchp [.fetch o.data] ++
  [vmLdl f o.data o.data] ++
  when (!f.explicitFaultEdges) [extbl o.tag o.temp2 o.tag]

/-! ### `VM-write` -/

namespace Original

def vmWrite (o : WriteRegisters) (prefetchp : Bool) : List Instr :=
  [addq o.vma ivory o.temp,
    s4addq o.temp .zero o.temp4] ++
  when prefetchp [.fetch o.temp, .label] ++
  [.vm false (.ldqU o.temp3 o.temp),
    insbl o.tag o.temp o.temp2,
    mskbl o.temp3 o.temp o.temp3] ++
  [if prefetchp then .fetch o.temp4 else .label] ++
  [bis o.temp3 o.temp2 o.temp3,
    .vm false (.stqU o.temp3 o.temp),
    .vm false (.stl o.data o.temp4)]

end Original

/-- The store of the tag alone. -/
def storeTag (f : Modes) (o : WriteRegisters) : Instr :=
  if f.explicitFaultEdges then .vm true (.stb o.tag o.temp) else vmStqU f o.temp3 o.temp

/-- Both stores, the data first. -/
def storeDataFirst (f : Modes) (o : WriteRegisters) : List Instr :=
  if f.explicitFaultEdges then [.vm true (.stwb o.data o.temp4 o.tag o.temp)]
  else [vmStl f o.data o.temp4, vmStqU f o.temp3 o.temp]

def vmWrite (f : Modes) (o : WriteRegisters) (prefetchp : Bool) : List Instr :=
  [addq o.vma ivory o.temp,
    s4addq o.temp .zero o.temp4] ++
  when prefetchp [.fetch o.temp, .label] ++
  when (!f.explicitFaultEdges)
    [vmLdqU f o.temp3 o.temp,
      insbl o.tag o.temp o.temp2,
      mskbl o.temp3 o.temp o.temp3] ++
  [if prefetchp then .fetch o.temp4 else .label] ++
  when (!f.explicitFaultEdges) [bis o.temp3 o.temp2 o.temp3] ++
  (if f.dataStoreFirst then storeDataFirst f o
  else [storeTag f o, vmStl f o.data o.temp4])

/-! ### `memory-write` -/

def MemoryWrite.base (o : MemoryWrite) : Register := o.memoizedBase.getD o.temp2

/-- The base is loaded before the address is formed. -/
def MemoryWrite.loadsBaseEarly (o : MemoryWrite) : Bool :=
  !(o.cantBeInCache || o.memoizedBase.isSome || o.temp5.isNone)

/-- The base is loaded once the tag is packed. -/
def MemoryWrite.loadsBaseLate (o : MemoryWrite) : Bool :=
  !(o.cantBeInCache || o.memoizedBase.isSome || o.temp5.isSome)

def loadLimit (o : MemoryWrite) : List Instr :=
  match o.temp5 with
  | some temp5 => when (!(o.cantBeInCache || o.memoizedLimit.isSome)) [.ldlLimit temp5]
  | none => []

/-- With a fifth temporary, the range is checked while the tag is packed. -/
def compareEarly (o : MemoryWrite) : List Instr :=
  match o.temp5 with
  | some temp5 => when (!o.cantBeInCache)
      [subq o.vma o.base o.temp2,
        cmpult o.temp2 (o.memoizedLimit.getD temp5) temp5]
  | none => []

/-- Without it, once the tag is stored. -/
def compareLate (o : MemoryWrite) : List Instr :=
  match o.temp5 with
  | some _ => []
  | none => when (!o.cantBeInCache)
      [.ldlLimit o.temp,
        subq o.vma o.base o.temp2,
        cmpult o.temp2 o.temp o.temp]

/-- The block out of line, for a word in the stack cache. -/
def inCache (o : MemoryWrite) : List Instr :=
  (match o.temp5 with
  | some _ =>
      when o.memoizedBase.isNone [.ldqField o.temp2 .stackCacheBaseVMA, .label] ++
      [.ldqField o.temp .stackCacheData,
        subq o.vma o.base o.temp2]
  | none => [.ldqField o.temp .stackCacheData]) ++
  [s8addq o.temp2 o.temp o.temp,
    .stlCache o.data 0 o.temp,
    .stlCache o.tag 4 o.temp]

/-- Code with a branch to a block that comes back behind it. -/
structure Expansion where
  main : List Instr
  branch : Option (Register × List Instr)

/-- Both ways lead to the same end, be it a label of the caller's or the next instruction. -/
def Expansion.run (p : Pages) (e : Expansion) (s : State) : Except State State :=
  (VMAccess.run p e.main s).bind fun s =>
    match e.branch with
    | some (r, block) => if s.regs r = 0 then .ok s else VMAccess.run p block s
    | none => .ok s

/-- The branch on what the comparison left. -/
def MemoryWrite.branch (o : MemoryWrite) : Option (Register × List Instr) :=
  if o.cantBeInCache then none else some (o.temp5.getD o.temp, inCache o)

namespace Original

def memoryWrite (o : MemoryWrite) : Expansion where
  main :=
    when o.loadsBaseEarly [.ldqField o.temp2 .stackCacheBaseVMA] ++
    [addq o.vma ivory o.temp] ++
    loadLimit o ++
    [s4addq o.temp .zero o.temp4,
      .vm false (.ldqU o.temp3 o.temp)] ++
    compareEarly o ++
    [insbl o.tag o.temp o.temp2,
      mskbl o.temp3 o.temp o.temp3,
      .label,
      bis o.temp3 o.temp2 o.temp3] ++
    when o.loadsBaseLate [.ldqField o.temp2 .stackCacheBaseVMA] ++
    [.vm false (.stqU o.temp3 o.temp)] ++
    compareLate o ++
    [.vm false (.stl o.data o.temp4)]
  branch := o.branch

end Original

def memoryWrite (f : Modes) (o : MemoryWrite) : Expansion where
  main :=
    when o.loadsBaseEarly [.ldqField o.temp2 .stackCacheBaseVMA] ++
    [addq o.vma ivory o.temp] ++
    loadLimit o ++
    [s4addq o.temp .zero o.temp4] ++
    when (!f.explicitFaultEdges) [vmLdqU f o.temp3 o.temp] ++
    compareEarly o ++
    when (!f.explicitFaultEdges)
      [insbl o.tag o.temp o.temp2,
        mskbl o.temp3 o.temp o.temp3] ++
    [.label] ++
    when (!f.explicitFaultEdges) [bis o.temp3 o.temp2 o.temp3] ++
    when o.loadsBaseLate [.ldqField o.temp2 .stackCacheBaseVMA] ++
    (if f.dataStoreFirst then storeDataFirst f o.toWriteRegisters
      else [storeTag f o.toWriteRegisters]) ++
    compareLate o ++
    when (!f.dataStoreFirst) [vmStl f o.data o.temp4]
  branch := o.branch

/-! ### `stack-dump` -/

/-- Two loops on one counter, with the code before each. -/
structure Loops where
  count : Register
  before : List Instr
  first : List Instr
  between : List Instr
  second : List Instr

/-- `BGT` at the end of a loop that is entered at its test. -/
def bgt (count : Register) (s : State) : Bool := 0 < (s.regs count).toInt

def Loops.run (p : Pages) (l : Loops) (fuel : Nat) (s : State) : Option (Except State State) :=
  match VMAccess.run p l.before s with
  | .error s => some (.error s)
  | .ok s =>
      match Faulting.loop (bgt l.count) (VMAccess.run p l.first) fuel s with
      | some (.ok s) =>
          match VMAccess.run p l.between s with
          | .error s => some (.error s)
          | .ok s => Faulting.loop (bgt l.count) (VMAccess.run p l.second) fuel s
      | other => other

def dumpBefore (o : DumpRegisters) : List Instr :=
  [.stlDumpCount o.count,
    addq o.vma ivory o.temp2,
    s4addq o.temp2 .zero o.vma,
    .fetch o.sca,
    .fetch o.vma]

def dumpBetween (o : DumpRegisters) : List Instr :=
  [.ldlDumpCount o.count,
    bis .zero o.temp2 o.vma,
    sllLiteral o.count 3 o.temp,
    subq o.sca o.temp o.sca,
    .fetch o.sca,
    .fetch o.vma]

namespace Original

def stackDump (o : DumpRegisters) : Loops where
  count := o.count
  before := dumpBefore o
  first :=
    [.ldlCache o.temp 0 o.sca,
      subqLiteral o.count 1 o.count,
      addqLiteral o.sca 8 o.sca,
      .vm false (.stl o.temp o.vma),
      addqLiteral o.vma 4 o.vma,
      .label]
  between := dumpBetween o
  second :=
    [subqLiteral o.count 1 o.count,
      .ldlCache o.temp 4 o.sca,
      addqLiteral o.sca 8 o.sca,
      .vm false (.ldqU o.temp2 o.vma),
      insbl o.temp o.vma o.temp,
      mskbl o.temp2 o.vma o.temp2,
      bis o.temp o.temp2 o.temp2,
      .vm false (.stqU o.temp2 o.vma),
      addqLiteral o.vma 1 o.vma,
      .label]

end Original

def stackDump (f : Modes) (o : DumpRegisters) : Loops where
  count := o.count
  before := dumpBefore o
  first :=
    [.ldlCache o.temp 0 o.sca,
      subqLiteral o.count 1 o.count,
      addqLiteral o.sca 8 o.sca,
      vmStl f o.temp o.vma,
      addqLiteral o.vma 4 o.vma,
      .label]
  between := dumpBetween o
  second :=
    [subqLiteral o.count 1 o.count,
      .ldlCache o.temp 4 o.sca,
      addqLiteral o.sca 8 o.sca] ++
    (if f.explicitFaultEdges then [.vm true (.stb o.temp o.vma)]
      else
        [vmLdqU f o.temp2 o.vma,
          insbl o.temp o.vma o.temp,
          mskbl o.temp2 o.vma o.temp2,
          bis o.temp o.temp2 o.temp2,
          vmStqU f o.temp2 o.vma]) ++
    [addqLiteral o.vma 1 o.vma,
      .label]

end VMAccess
