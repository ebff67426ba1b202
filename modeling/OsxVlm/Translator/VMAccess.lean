import Mathlib
import OsxVlm.Library.Faulting
import OsxVlm.Translator.Alpha

/-!
# Instructions on the emulated memory

The tag of a word is a byte at `vma` in the tag space, its data a longword at four
times that address.  On the Alpha a tag is replaced by reading and writing the
aligned quadword around it; on aarch64 a byte is stored.  A page may refuse an
access, and the state at the fault is the one before the instruction.
-/

namespace VMAccess

open Alpha

/-- What the host lets through, by host address. -/
structure Pages where
  tagSpace : BitVec 64
  /-- The tag space of a mapped wad can be read and written. -/
  mapped : BitVec 64 → Bool
  dataReadable : BitVec 64 → Bool
  dataWritable : BitVec 64 → Bool
  mapped_quad : ∀ a, mapped (a &&& ~~~7) = mapped a
  /-- Data pages are only there in a mapped wad. -/
  mapped_of_writable : ∀ vma : BitVec 32,
    dataWritable ((vma.zeroExtend 64 + tagSpace) <<< 2) → mapped (vma.zeroExtend 64 + tagSpace)

/-- The emulated memory, the stack cache, and the fields that locate it. -/
structure Memory where
  tags : BitVec 64 → BitVec 8
  data : BitVec 64 → BitVec 32
  /-- Longwords of the stack cache, by host address. -/
  stackCache : BitVec 64 → BitVec 32
  stackCacheBaseVMA : BitVec 64
  stackCacheData : BitVec 64
  scovLimit : BitVec 32
  scovDumpCount : BitVec 32

structure State where
  regs : Registers
  memory : Memory

def State.set (s : State) (r : Register) (v : BitVec 64) : State :=
  { s with regs := Function.update s.regs r v }

def ivory : Register := .r 14

/-! ### The quadword around a tag -/

/-- The aligned quadword that `LDQ_U` reads at `a`. -/
def quadAt (tags : BitVec 64 → BitVec 8) (a : BitVec 64) : BitVec 64 :=
  tags (a + 7) ++ tags (a + 6) ++ tags (a + 5) ++ tags (a + 4) ++
    tags (a + 3) ++ tags (a + 2) ++ tags (a + 1) ++ tags a

def aligned (a : BitVec 64) : BitVec 64 := a &&& ~~~7

@[simp] theorem Pages.mapped_aligned (p : Pages) (a : BitVec 64) :
    p.mapped (aligned a) = p.mapped a := p.mapped_quad a

/-- The tags after `STQ_U` of `q` at `a`. -/
def storeQuad (tags : BitVec 64 → BitVec 8) (a q : BitVec 64) : BitVec 64 → BitVec 8 :=
  fun x => if aligned x = a then byte q (x.toNat % 8) else tags x

/-! ### Instructions -/

/-- Accesses to the emulated memory. -/
inductive Access where
  | ldl (a b : Register)
  | stl (a b : Register)
  | ldqU (a b : Register)
  | stqU (a b : Register)
  | ldb (a b : Register)
  | stb (a b : Register)
  | stwb (data dataAddress tag tagAddress : Register)

inductive Field where
  | stackCacheBaseVMA | stackCacheData

inductive Instr where
  | alpha (i : Alpha.Instr)
  /-- `FETCH` and `FETCH_M` -/
  | fetch (b : Register)
  /-- A label that only aligns what follows. -/
  | label
  /-- With its own fault edge, or left to the handler of the signal. -/
  | vm (edge : Bool) (access : Access)
  | ldqField (a : Register) (field : Field)
  | ldlLimit (a : Register)
  | ldlDumpCount (a : Register)
  | stlDumpCount (a : Register)
  | ldlCache (a : Register) (disp : BitVec 64) (b : Register)
  | stlCache (a : Register) (disp : BitVec 64) (b : Register)

def addq (a b c : Register) : Instr := .alpha (.operate .addq a (.register b) c)
def subq (a b c : Register) : Instr := .alpha (.operate .subq a (.register b) c)
def addqLiteral (a : Register) (n : BitVec 8) (c : Register) : Instr :=
  .alpha (.operate .addq a (.literal n) c)
def subqLiteral (a : Register) (n : BitVec 8) (c : Register) : Instr :=
  .alpha (.operate .subq a (.literal n) c)
def sllLiteral (a : Register) (n : BitVec 8) (c : Register) : Instr :=
  .alpha (.operate .sll a (.literal n) c)
def s4addq (a b c : Register) : Instr := .alpha (.operate .s4addq a (.register b) c)
def s8addq (a b c : Register) : Instr := .alpha (.operate .s8addq a (.register b) c)
def cmpult (a b c : Register) : Instr := .alpha (.operate .cmpult a (.register b) c)
def extbl (a b c : Register) : Instr := .alpha (.operate .extbl a (.register b) c)
def insbl (a b c : Register) : Instr := .alpha (.operate .insbl a (.register b) c)
def mskbl (a b c : Register) : Instr := .alpha (.operate .mskbl a (.register b) c)
def bis (a b c : Register) : Instr := .alpha (.operate .bis a (.register b) c)

def Field.read (m : Memory) : Field → BitVec 64
  | .stackCacheBaseVMA => m.stackCacheBaseVMA
  | .stackCacheData => m.stackCacheData

def Memory.storeData (m : Memory) (a : BitVec 64) (v : BitVec 64) : Memory :=
  { m with data := Function.update m.data a (v.setWidth 32) }

def Memory.storeTag (m : Memory) (a : BitVec 64) (v : BitVec 64) : Memory :=
  { m with tags := Function.update m.tags a (v.setWidth 8) }

def Memory.storeCache (m : Memory) (a : BitVec 64) (v : BitVec 64) : Memory :=
  { m with stackCache := Function.update m.stackCache a (v.setWidth 32) }

def Access.execute (p : Pages) (s : State) : Access → Except State State
  | .ldl a b =>
      if p.dataReadable (s.regs b) then
        .ok (s.set a ((s.memory.data (s.regs b)).signExtend 64)) else .error s
  | .stl a b =>
      if p.dataWritable (s.regs b) then
        .ok { s with memory := s.memory.storeData (s.regs b) (s.regs a) } else .error s
  | .ldqU a b =>
      if p.mapped (aligned (s.regs b)) then
        .ok (s.set a (quadAt s.memory.tags (aligned (s.regs b)))) else .error s
  | .stqU a b =>
      if p.mapped (aligned (s.regs b)) then
        .ok { s with memory.tags := storeQuad s.memory.tags (aligned (s.regs b)) (s.regs a) }
      else .error s
  | .ldb a b =>
      if p.mapped (s.regs b) then
        .ok (s.set a ((s.memory.tags (s.regs b)).setWidth 64)) else .error s
  | .stb a b =>
      if p.mapped (s.regs b) then
        .ok { s with memory := s.memory.storeTag (s.regs b) (s.regs a) } else .error s
  | .stwb data dataAddress tag tagAddress =>
      -- two host instructions: the data is stored when the tag faults
      if p.dataWritable (s.regs dataAddress) then
        let s := { s with memory := s.memory.storeData (s.regs dataAddress) (s.regs data) }
        if p.mapped (s.regs tagAddress) then
          .ok { s with memory := s.memory.storeTag (s.regs tagAddress) (s.regs tag) }
        else .error s
      else .error s

def Instr.execute (p : Pages) (s : State) : Instr → Except State State
  | .alpha i => .ok { s with regs := i.execute s.regs }
  | .fetch _ | .label => .ok s
  | .vm _ access => access.execute p s
  | .ldqField a field => .ok (s.set a (field.read s.memory))
  | .ldlLimit a => .ok (s.set a (s.memory.scovLimit.signExtend 64))
  | .ldlDumpCount a => .ok (s.set a (s.memory.scovDumpCount.signExtend 64))
  | .stlDumpCount a => .ok { s with memory.scovDumpCount := (s.regs a).setWidth 32 }
  | .ldlCache a disp b =>
      .ok (s.set a ((s.memory.stackCache (s.regs b + disp)).signExtend 64))
  | .stlCache a disp b =>
      .ok { s with memory := s.memory.storeCache (s.regs b + disp) (s.regs a) }

/-- The instructions, up to the first fault. -/
def run (p : Pages) : List Instr → State → Except State State :=
  Faulting.run fun i s => i.execute p s

/-! ### What the instructions do -/

@[simp] theorem State.set_memory (s : State) (r : Register) (v : BitVec 64) :
    (s.set r v).memory = s.memory := rfl

@[grind =] theorem State.set_regs (s : State) (r r' : Register) (v : BitVec 64) :
    (s.set r v).regs r' = if r' = r then v else s.regs r' := Function.update_apply _ _ _ _

@[simp] theorem State.set_self (s : State) (r : Register) (v : BitVec 64) :
    (s.set r v).regs r = v := Function.update_self _ _ _

theorem State.set_set (s : State) (r : Register) (v w : BitVec 64) : (s.set r v).set r w = s.set r w := by
  simp [State.set]

theorem State.set_same (s : State) (r : Register) : s.set r (s.regs r) = s := by
  simp [State.set]

theorem State.set_comm (s : State) {r r' : Register} (h : r ≠ r') (v w : BitVec 64) :
    (s.set r v).set r' w = (s.set r' w).set r v := by
  simp [State.set, Function.update_comm h]

@[simp] theorem except_bind_ok (s : State) (f : State → Except State State) : (Except.ok s).bind f = f s := rfl
@[simp] theorem except_bind_error (s : State) (f : State → Except State State) : (Except.error s).bind f = .error s := rfl
theorem run_append (p : Pages) (is js : List Instr) (s : State) :
    run p (is ++ js) s = (run p is s).bind (run p js) := Faulting.run_append is js s

@[simp] theorem run_nil (p : Pages)  (s : State) : run p [] s = .ok s := rfl
@[simp] theorem run_cons (p : Pages) (i : Instr) (is : List Instr) (s : State) :
   run p (i :: is) s = (i.execute p s).bind (run p is) := rfl

theorem run_one (p : Pages) (i : Instr) (s : State) : run p [i] s = i.execute p s := by
  rw [run, Faulting.run_cons]
  cases i.execute p s <;> rfl

@[simp] theorem execute_addq (p : Pages) (s : State) (a b c : Register) :
    (addq a b c).execute p s = .ok (s.set c (s.regs a + s.regs b)) := rfl
@[simp] theorem execute_s4addq (p : Pages) (s : State) (a b c : Register) :
    (s4addq a b c).execute p s = .ok (s.set c (s.regs a <<< 2 + s.regs b)) := rfl
@[simp] theorem execute_extbl (p : Pages) (s : State) (a b c : Register) :
    (extbl a b c).execute p s = .ok (s.set c (Operate.result .extbl (s.regs a) (s.regs b))) := rfl
@[simp] theorem execute_fetch (p : Pages) (s : State) (a : Register) :
    Instr.execute p s (.fetch a) = .ok s := rfl
@[simp] theorem execute_vm (p : Pages) (s : State) (edge : Bool) (access : Access) :
    Instr.execute p s (.vm edge access) = access.execute p s := rfl

@[simp] theorem execute_insbl (p : Pages) (s : State) (a b c : Register) :
    (insbl a b c).execute p s = .ok (s.set c (Operate.result .insbl (s.regs a) (s.regs b))) := rfl
@[simp] theorem execute_mskbl (p : Pages) (s : State) (a b c : Register) :
    (mskbl a b c).execute p s = .ok (s.set c (Operate.result .mskbl (s.regs a) (s.regs b))) := rfl
@[simp] theorem execute_bis (p : Pages) (s : State) (a b c : Register) :
    (bis a b c).execute p s = .ok (s.set c (s.regs a ||| s.regs b)) := rfl

theorem execute_ldqU (p : Pages) (s : State) (a b : Register) (edge : Bool) :
    Instr.execute p s (.vm edge (.ldqU a b)) =
      if p.mapped (s.regs b) then .ok (s.set a (quadAt s.memory.tags (aligned (s.regs b))))
      else .error s := by
  rw [execute_vm, Access.execute, Pages.mapped_aligned]

@[simp] theorem execute_ldqField (p : Pages) (s : State) (a : Register) (field : Field) :
    Instr.execute p s (.ldqField a field) = .ok (s.set a (field.read s.memory)) := rfl
@[simp] theorem execute_ldlLimit (p : Pages) (s : State) (a : Register) :
    Instr.execute p s (.ldlLimit a) = .ok (s.set a (s.memory.scovLimit.signExtend 64)) := rfl
@[simp] theorem execute_subq (p : Pages) (s : State) (a b c : Register) :
    (subq a b c).execute p s = .ok (s.set c (s.regs a - s.regs b)) := rfl
@[simp] theorem execute_cmpult (p : Pages) (s : State) (a b c : Register) :
    (cmpult a b c).execute p s = .ok (s.set c (truth (s.regs a < s.regs b))) := rfl

@[simp] theorem execute_s8addq (p : Pages) (s : State) (a b c : Register) :
    (s8addq a b c).execute p s = .ok (s.set c (s.regs a <<< 3 + s.regs b)) := rfl

@[simp] theorem execute_stlCache (p : Pages) (s : State) (a b : Register) (disp : BitVec 64) :
    Instr.execute p s (.stlCache a disp b) =
      .ok { s with memory := s.memory.storeCache (s.regs b + disp) (s.regs a) } := rfl

@[simp] theorem execute_subqLiteral (p : Pages) (s : State) (a c : Register) (n : BitVec 8) :
    (subqLiteral a n c).execute p s = .ok (s.set c (s.regs a - n.setWidth 64)) := rfl
@[simp] theorem execute_addqLiteral (p : Pages) (s : State) (a c : Register) (n : BitVec 8) :
    (addqLiteral a n c).execute p s = .ok (s.set c (s.regs a + n.setWidth 64)) := rfl
@[simp] theorem execute_ldlCache (p : Pages) (s : State) (a b : Register) (disp : BitVec 64) :
    Instr.execute p s (.ldlCache a disp b) =
      .ok (s.set a ((s.memory.stackCache (s.regs b + disp)).signExtend 64)) := rfl
@[simp] theorem execute_label (p : Pages) (s : State) : Instr.execute p s .label = .ok s := rfl

/-! ### Replacing one tag in a quadword -/

theorem byte_quadAt (tags : BitVec 64 → BitVec 8) (a : BitVec 64) {i : Nat} (hi : i < 8) :
    byte (quadAt tags a) i = tags (a + BitVec.ofNat 64 i) := by
  unfold byte quadAt
  interval_cases i <;> (ext k hk; simp; try grind)

/-- The bits of a mask of ones. -/
theorem ones_bit (w : Nat) (hw : w ≤ 64) (n : Nat) :
    (BitVec.ofNat 64 (2 ^ w - 1)).getLsbD n = decide (n < w) := by
  rw [BitVec.getLsbD_ofNat, Nat.testBit_two_pow_sub_one]
  grind

/-- The byte that the location names is new, the others stay. -/
theorem byte_merge (q b v : BitVec 64) {i : Nat} (hi : i < 8) :
    byte (Operate.result .mskbl q b ||| Operate.result .insbl v b) i =
      if i = b.toNat % 8 then v.setWidth 8 else byte q i := by
  have hlow : b.toNat % 8 < 8 := Nat.mod_lt _ (by decide)
  have hmask (n : Nat) : (0xFF#64).getLsbD n = decide (n < 8) := ones_bit 8 (by decide) n
  apply BitVec.eq_of_getLsbD_eq
  intro k hk
  simp only [byte, Operate.result, byteLocation, BitVec.getLsbD_extractLsb', BitVec.getLsbD_or,
    BitVec.getLsbD_and, BitVec.getLsbD_not, BitVec.getLsbD_shiftLeft, hmask]
  by_cases h : i = b.toNat % 8
  · have hbit : 8 * i + k - 8 * (b.toNat % 8) = k := by omega
    rw [if_pos h]
    simp [hbit, hk]
    grind
  · rw [if_neg h]
    simp
    grind

theorem toNat_aligned (x : BitVec 64) : (aligned x).toNat = x.toNat - x.toNat % 8 := by
  have hshift : aligned x = (x >>> 3) <<< 3 := by
    apply BitVec.eq_of_getLsbD_eq
    intro k hk
    have hseven : (7 : BitVec 64).getLsbD k = decide (k < 3) := ones_bit 3 (by decide) k
    simp only [aligned, BitVec.getLsbD_and, BitVec.getLsbD_not, BitVec.getLsbD_shiftLeft,
      BitVec.getLsbD_ushiftRight, hseven, hk]
    grind
  have := x.isLt
  rw [hshift, BitVec.toNat_shiftLeft, BitVec.toNat_ushiftRight, Nat.shiftLeft_eq,
    Nat.shiftRight_eq_div_pow]
  omega

theorem aligned_add (x : BitVec 64) : aligned x + BitVec.ofNat 64 (x.toNat % 8) = x := by
  have := x.isLt
  apply BitVec.eq_of_toNat_eq
  rw [BitVec.toNat_add, toNat_aligned, BitVec.toNat_ofNat]
  omega

/-- Reading, replacing and writing the quadword stores one tag. -/
theorem storeQuad_merge (tags : BitVec 64 → BitVec 8) (t v : BitVec 64) :
    storeQuad tags (aligned t)
      (Operate.result .mskbl (quadAt tags (aligned t)) t ||| Operate.result .insbl v t) =
      Function.update tags t (v.setWidth 8) := by
  funext x
  by_cases hquad : aligned x = aligned t
  · rw [storeQuad, if_pos hquad, byte_merge _ _ _ (Nat.mod_lt _ (by decide)),
      byte_quadAt _ _ (Nat.mod_lt _ (by decide)), ← hquad, aligned_add]
    by_cases hx : x = t
    · rw [hx, if_pos rfl, Function.update_self]
    · rw [if_neg, Function.update_of_ne hx]
      intro hlow
      apply hx
      rw [← aligned_add x, ← aligned_add t, hquad, hlow]
  · rw [storeQuad, if_neg hquad, Function.update_of_ne]
    rintro rfl
    exact hquad rfl

/-- The tag that a location names, out of its quadword. -/
theorem extbl_quadAt (tags : BitVec 64 → BitVec 8) (t : BitVec 64) :
    Operate.result .extbl (quadAt tags (aligned t)) t = (tags t).setWidth 64 := by
  have hlow : t.toNat % 8 < 8 := Nat.mod_lt _ (by decide)
  have hbyte := byte_quadAt tags (aligned t) hlow
  rw [aligned_add] at hbyte
  rw [← hbyte]
  apply BitVec.eq_of_getLsbD_eq
  intro k hk
  simp [byte, Operate.result, byteLocation, hk]

end VMAccess
