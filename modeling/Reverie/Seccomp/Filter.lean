/-
  The seccomp filter builder (`seccomp.rs`, `seccomp/bpf.rs`), with the source's hand-counted
  jumps.  A rule that does not match leaves the accumulator and the scratch words as it found
  them, so the rules can be run one after the other.  Main theorem: `run_build`.
-/
import Reverie.Seccomp.Bpf

namespace Reverie.Seccomp

open Bpf List

/-! ## Constants and data -/

def BPF_LD : UInt16 := 0x00
def BPF_ST : UInt16 := 0x02
def BPF_JMP : UInt16 := 0x05
def BPF_RET : UInt16 := 0x06
def BPF_W : UInt16 := 0x00
def BPF_ABS : UInt16 := 0x20
def BPF_MEM : UInt16 := 0x60
def BPF_JEQ : UInt16 := 0x10
def BPF_JGT : UInt16 := 0x20
def BPF_JGE : UInt16 := 0x30
def BPF_K : UInt16 := 0x00

def SECCOMP_RET_KILL_PROCESS : UInt32 := 0x80000000
def SECCOMP_RET_KILL_THREAD : UInt32 := 0x00000000
def SECCOMP_RET_TRAP : UInt32 := 0x00030000
def SECCOMP_RET_ERRNO : UInt32 := 0x00050000
def SECCOMP_RET_TRACE : UInt32 := 0x7ff00000
def SECCOMP_RET_LOG : UInt32 := 0x7ffc0000
def SECCOMP_RET_ALLOW : UInt32 := 0x7fff0000
def SECCOMP_RET_DATA : UInt32 := 0x0000ffff

/-- `cfg(target_endian)`: which half of the instruction pointer comes first. -/
inductive Endian where
  | little | big

def SECCOMP_DATA_OFFSET_NR : UInt32 := 0
def SECCOMP_DATA_OFFSET_ARCH : UInt32 := 4
def SECCOMP_DATA_OFFSET_IP : UInt32 := 8

def SECCOMP_DATA_OFFSET_IP_HI : Endian → UInt32
  | .little => SECCOMP_DATA_OFFSET_IP + 4
  | .big => SECCOMP_DATA_OFFSET_IP

def SECCOMP_DATA_OFFSET_IP_LO : Endian → UInt32
  | .little => SECCOMP_DATA_OFFSET_IP
  | .big => SECCOMP_DATA_OFFSET_IP + 4

/-- `struct seccomp_data`; the syscall arguments, which no filter reads, are
    left out. -/
structure SeccompData where
  nr : UInt32
  arch : UInt32
  instructionPointer : UInt64

/-- `ip as u32`. -/
def lo (ip : UInt64) : UInt32 := ip.toUInt32

/-- `(ip >> 32) as u32`. -/
def hi (ip : UInt64) : UInt32 := (ip >>> 32).toUInt32

/-- The words of `seccomp_data`, by byte offset. -/
def SeccompData.load (e : Endian) (d : SeccompData) (k : UInt32) : Option UInt32 :=
  if k = SECCOMP_DATA_OFFSET_NR then some d.nr
  else if k = SECCOMP_DATA_OFFSET_ARCH then some d.arch
  else if k = SECCOMP_DATA_OFFSET_IP_LO e then some (lo d.instructionPointer)
  else if k = SECCOMP_DATA_OFFSET_IP_HI e then some (hi d.instructionPointer)
  else none

def EM_386 : UInt32 := 3
def EM_MIPS : UInt32 := 8
def EM_PPC : UInt32 := 20
def EM_PPC64 : UInt32 := 21
def EM_ARM : UInt32 := 40
def EM_X86_64 : UInt32 := 62
def EM_AARCH64 : UInt32 := 183
def AUDIT_ARCH_64BIT : UInt32 := 0x80000000
def AUDIT_ARCH_LE : UInt32 := 0x40000000

/-- The architectures of a filter. -/
inductive TargetArch where
  | x86 | x86_64 | mips | powerpc | powerpc64 | arm | aarch64

/-- The `AUDIT_ARCH_*` discriminant of an architecture. -/
def TargetArch.toU32 : TargetArch → UInt32
  | .x86 => EM_386 ||| AUDIT_ARCH_LE
  | .x86_64 => EM_X86_64 ||| AUDIT_ARCH_64BIT ||| AUDIT_ARCH_LE
  | .mips => EM_MIPS
  | .powerpc => EM_PPC
  | .powerpc64 => EM_PPC64 ||| AUDIT_ARCH_64BIT
  | .arm => EM_ARM ||| AUDIT_ARCH_LE
  | .aarch64 => EM_AARCH64 ||| AUDIT_ARCH_64BIT ||| AUDIT_ARCH_LE

/-- What a filter decides. -/
inductive Action where
  | allow
  | errno (raw : Int32)
  | killThread
  | killProcess
  | log
  | trace (data : UInt16)
  | trap
  | notify

/-- `impl From<Action> for u32`. -/
def Action.toU32 : Action → UInt32
  | .allow => SECCOMP_RET_ALLOW
  | .errno x => SECCOMP_RET_ERRNO ||| (x.toUInt32 &&& SECCOMP_RET_DATA)
  | .killThread => SECCOMP_RET_KILL_THREAD
  | .killProcess => SECCOMP_RET_KILL_PROCESS
  | .log => SECCOMP_RET_LOG
  | .trace x => SECCOMP_RET_TRACE ||| (x.toUInt32 &&& SECCOMP_RET_DATA)
  | .trap => SECCOMP_RET_TRAP
  | .notify => 0x7fc00000

/-- A syscall number.  The enumeration of the `syscalls` crate is a subset of
    these values. -/
abbrev Sysno := Int32

/-- The rules of a filter. -/
structure FilterBuilder where
  targetArch : TargetArch
  defaultAction : Action
  syscalls : Std.TreeMap Sysno Action
  ipRanges : List (UInt64 × UInt64 × Action)
  instructionPointers : List (UInt64 × Action)
  alternateArch : Option (TargetArch × Action)

/-! ## The emitted byte code -/

def bpfStmt (code : UInt16) (k : UInt32) : SockFilter := ⟨code, 0, 0, k⟩

def bpfJump (code : UInt16) (k : UInt32) (jt jf : UInt8) : SockFilter := ⟨code, jt, jf, k⟩

/-- `impl From<Action> for sock_filter`. -/
def Action.toSockFilter (a : Action) : SockFilter := bpfStmt (BPF_RET + BPF_K) a.toU32

def loadSyscallNr : SockFilter := bpfStmt (BPF_LD + BPF_W + BPF_ABS) SECCOMP_DATA_OFFSET_NR

def validateArch (targetArch : UInt32) : List SockFilter :=
  [bpfStmt (BPF_LD + BPF_W + BPF_ABS) SECCOMP_DATA_OFFSET_ARCH,
   bpfJump (BPF_JMP + BPF_JEQ + BPF_K) targetArch 1 0,
   bpfStmt (BPF_RET + BPF_K) SECCOMP_RET_KILL_PROCESS]

def validateArchOrAlternate (targetArch alternateArch : UInt32) (action : SockFilter) :
    List SockFilter :=
  [bpfStmt (BPF_LD + BPF_W + BPF_ABS) SECCOMP_DATA_OFFSET_ARCH,
   -- if (arch == target_arch) goto CONTINUE;
   bpfJump (BPF_JMP + BPF_JEQ + BPF_K) targetArch 3 0,
   -- if (arch != alternate_arch) goto KILL;
   bpfJump (BPF_JMP + BPF_JEQ + BPF_K) alternateArch 0 1,
   action,
   -- KILL:
   bpfStmt (BPF_RET + BPF_K) SECCOMP_RET_KILL_PROCESS]

def loadSyscallIp (e : Endian) : List SockFilter :=
  [bpfStmt (BPF_LD + BPF_W + BPF_ABS) (SECCOMP_DATA_OFFSET_IP_LO e),
   bpfStmt BPF_ST 0,
   bpfStmt (BPF_LD + BPF_W + BPF_ABS) (SECCOMP_DATA_OFFSET_IP_HI e),
   bpfStmt BPF_ST 1]

def syscall (nr : Sysno) (action : SockFilter) : List SockFilter :=
  [bpfJump (BPF_JMP + BPF_JEQ + BPF_K) nr.toUInt32 0 1, action]

def ipRange64 (blo bhi elo ehi : UInt32) (action : SockFilter) : List SockFilter :=
  -- STEP1: if (ip < begin) goto NOMATCH;
  [bpfJump (BPF_JMP + BPF_JGT + BPF_K) bhi 4 0,
   bpfJump (BPF_JMP + BPF_JEQ + BPF_K) bhi 0 9,
   bpfStmt (BPF_LD + BPF_MEM) 0,
   bpfJump (BPF_JMP + BPF_JGE + BPF_K) blo 0 7,
   bpfStmt (BPF_LD + BPF_MEM) 1,
   -- STEP2: if (ip >= end) goto NOMATCH;
   bpfJump (BPF_JMP + BPF_JGT + BPF_K) ehi 5 0,
   bpfJump (BPF_JMP + BPF_JEQ + BPF_K) ehi 0 3,
   bpfStmt (BPF_LD + BPF_MEM) 0,
   bpfJump (BPF_JMP + BPF_JGE + BPF_K) elo 2 0,
   bpfStmt (BPF_LD + BPF_MEM) 1,
   -- MATCH:
   action,
   -- NOMATCH:
   bpfStmt (BPF_LD + BPF_MEM) 1]

def ipEq64 (lo hi : UInt32) (action : SockFilter) : List SockFilter :=
  [bpfJump (BPF_JMP + BPF_JEQ + BPF_K) hi 0 3,
   bpfStmt (BPF_LD + BPF_MEM) 0,
   bpfJump (BPF_JMP + BPF_JEQ + BPF_K) lo 0 1,
   -- MATCH:
   action,
   -- NOMATCH:
   bpfStmt (BPF_LD + BPF_MEM) 1]

def ipEq (ip : UInt64) (action : SockFilter) : List SockFilter := ipEq64 (lo ip) (hi ip) action

def ipRange (first last : UInt64) (action : SockFilter) : List SockFilter :=
  ipRange64 (lo first) (hi first) (lo last) (hi last) action

variable (b : FilterBuilder)

/-- The architecture check that starts every filter. -/
def FilterBuilder.archCode : List SockFilter :=
  match b.alternateArch with
  | none => validateArch b.targetArch.toU32
  | some (arch, action) =>
    validateArchOrAlternate b.targetArch.toU32 arch.toU32 action.toSockFilter

/-- The instruction-pointer rules: exact pointers first, then ranges. -/
def FilterBuilder.ipCode (e : Endian) (b : FilterBuilder) : List SockFilter :=
  if !b.instructionPointers.isEmpty || !b.ipRanges.isEmpty then
    loadSyscallIp e ++
    (b.instructionPointers.flatMap fun x => ipEq x.1 x.2.toSockFilter) ++
    (b.ipRanges.flatMap fun x => ipRange x.1 x.2.1 x.2.2.toSockFilter)
  else []

/-- The syscall rules, in the order of the map. -/
def FilterBuilder.syscallCode : List SockFilter :=
  if !b.syscalls.isEmpty then
    loadSyscallNr :: b.syscalls.toList.flatMap fun x => syscall x.1 x.2.toSockFilter
  else []

def FilterBuilder.build (e : Endian) (b : FilterBuilder) : List SockFilter :=
  b.archCode ++ b.ipCode e ++ b.syscallCode ++ [b.defaultAction.toSockFilter]

/-! ## The verdict -/

/-- The first exact-IP rule that matches. -/
def FilterBuilder.pointerRule (ip : UInt64) : Option Action :=
  (b.instructionPointers.find? fun x => x.1 == ip).map (·.2)

/-- The first range that holds `ip`. -/
def FilterBuilder.rangeRule (ip : UInt64) : Option Action :=
  (b.ipRanges.find? fun x => x.1 ≤ ip && ip < x.2.1).map (·.2.2)

/-- The action mapped to a syscall number. -/
def FilterBuilder.syscallRule (nr : UInt32) : Option Action :=
  b.syscalls[nr.toInt32]?

/-- What the filter is for: another architecture takes the alternate's action
    or is killed; otherwise the first matching rule decides. -/
def FilterBuilder.verdict (d : SeccompData) : Action :=
  if d.arch = b.targetArch.toU32 then
    ((b.pointerRule d.instructionPointer).or
      ((b.rangeRule d.instructionPointer).or (b.syscallRule d.nr))).getD b.defaultAction
  else match b.alternateArch with
    | some (arch, action) => if d.arch = arch.toU32 then action else .killProcess
    | none => .killProcess

/-! ## 64-bit comparisons by halves -/

theorem toNat_halves (x : UInt64) :
    x.toNat = (hi x).toNat * 2 ^ 32 + (lo x).toNat ∧ (lo x).toNat < 2 ^ 32 := by
  have h1 : (hi x).toNat = x.toNat / 2 ^ 32 := by
    have h32 : UInt64.toNat 32 % 64 = 32 := rfl
    have := x.toNat_lt
    simp only [hi, UInt64.toNat_toUInt32, UInt64.toNat_shiftRight, h32]
    omega
  have h2 : (lo x).toNat = x.toNat % 2 ^ 32 := by simp [lo]
  omega

theorem eq_iff_halves (x y : UInt64) : x = y ↔ hi x = hi y ∧ lo x = lo y := by
  refine ⟨fun h => by simp [h], fun ⟨h1, h2⟩ => ?_⟩
  have hx := toNat_halves x
  have hy := toNat_halves y
  rw [h1, h2] at hx
  exact UInt64.toNat_inj.1 (by omega)

theorem lt_iff_halves (x y : UInt64) : x < y ↔ hi x < hi y ∨ hi x = hi y ∧ lo x < lo y := by
  have hx := toNat_halves x
  have hy := toNat_halves y
  simp only [UInt64.lt_iff_toNat_lt, UInt32.lt_iff_toNat_lt, ← UInt32.toNat_inj]
  omega

/-! ## Running a block -/

section
variable (load : UInt32 → Option UInt32) (rest : List SockFilter) (r : Regs)

@[simp] theorem exec_pass (i : SockFilter) (n : ℕ) :
    exec load (i :: rest) (n + 1) r = exec load rest n r := rfl

@[simp] theorem exec_ldAbs {k v : UInt32} (h : load k = some v) :
    exec load (bpfStmt (BPF_LD + BPF_W + BPF_ABS) k :: rest) 0 r =
      exec load rest 0 { r with acc := v } := by
  have hd : (bpfStmt (BPF_LD + BPF_W + BPF_ABS) k).decode = some (.ldAbs k) := rfl
  simp only [exec, hd, Insn.effect, h]

@[simp] theorem exec_ldMem_zero :
    exec load (bpfStmt (BPF_LD + BPF_MEM) 0 :: rest) 0 r =
      exec load rest 0 { r with acc := r.mem 0 } := rfl

@[simp] theorem exec_ldMem_one :
    exec load (bpfStmt (BPF_LD + BPF_MEM) 1 :: rest) 0 r =
      exec load rest 0 { r with acc := r.mem 1 } := rfl

@[simp] theorem exec_st_zero :
    exec load (bpfStmt BPF_ST 0 :: rest) 0 r =
      exec load rest 0 { r with mem := fun j => if j = 0 then r.acc else r.mem j } := rfl

@[simp] theorem exec_st_one :
    exec load (bpfStmt BPF_ST 1 :: rest) 0 r =
      exec load rest 0 { r with mem := fun j => if j = 1 then r.acc else r.mem j } := rfl

@[simp] theorem exec_jeq (k : UInt32) (jt jf : UInt8) :
    exec load (bpfJump (BPF_JMP + BPF_JEQ + BPF_K) k jt jf :: rest) 0 r =
      exec load rest (if r.acc == k then jt.toNat else jf.toNat) r := rfl

@[simp] theorem exec_jgt (k : UInt32) (jt jf : UInt8) :
    exec load (bpfJump (BPF_JMP + BPF_JGT + BPF_K) k jt jf :: rest) 0 r =
      exec load rest (if decide (k < r.acc) then jt.toNat else jf.toNat) r := rfl

@[simp] theorem exec_jge (k : UInt32) (jt jf : UInt8) :
    exec load (bpfJump (BPF_JMP + BPF_JGE + BPF_K) k jt jf :: rest) 0 r =
      exec load rest (if decide (k ≤ r.acc) then jt.toNat else jf.toNat) r := rfl

@[simp] theorem exec_ret (k : UInt32) :
    exec load (bpfStmt (BPF_RET + BPF_K) k :: rest) 0 r = .ok k := rfl

theorem exec_validateArch {arch : UInt32} (h : load SECCOMP_DATA_OFFSET_ARCH = some arch)
    (target : UInt32) :
    exec load (validateArch target ++ rest) 0 r =
      if arch = target then exec load rest 0 { r with acc := arch }
      else .ok SECCOMP_RET_KILL_PROCESS := by
  by_cases ha : arch = target <;> simp [validateArch, h, ha]

theorem exec_validateArchOrAlternate {arch : UInt32}
    (h : load SECCOMP_DATA_OFFSET_ARCH = some arch) (target alternate : UInt32) (a : Action) :
    exec load (validateArchOrAlternate target alternate a.toSockFilter ++ rest) 0 r =
      if arch = target then exec load rest 0 { r with acc := arch }
      else if arch = alternate then .ok a.toU32 else .ok SECCOMP_RET_KILL_PROCESS := by
  by_cases ha : arch = target
  · simp [validateArchOrAlternate, h, ha]
  · by_cases hb : arch = alternate
    · subst hb; simp [validateArchOrAlternate, Action.toSockFilter, h, ha]
    · simp [validateArchOrAlternate, h, ha, hb]

/-- The registers between two instruction-pointer rules: `A` and `M[1]` hold
    the high half, `M[0]` the low half. -/
structure HoldsIp (r : Regs) (ip : UInt64) : Prop where
  acc : r.acc = hi ip
  low : r.mem 0 = lo ip
  high : r.mem 1 = hi ip

variable {r} {ip : UInt64}

theorem HoldsIp.reload (h : HoldsIp r ip) : ({ r with acc := hi ip }) = r := by
  rw [← h.acc]

theorem exec_ipEq (h : HoldsIp r ip) (rule : UInt64) (a : Action) :
    exec load (ipEq rule a.toSockFilter ++ rest) 0 r =
      if rule = ip then .ok a.toU32 else exec load rest 0 r := by
  by_cases h1 : hi ip = hi rule
  · by_cases h2 : lo ip = lo rule
    · have : rule = ip := (eq_iff_halves _ _).2 ⟨h1.symm, h2.symm⟩
      simp [ipEq, ipEq64, Action.toSockFilter, h.acc, h.low, this]
    · have : rule ≠ ip := fun e => h2 (by rw [e])
      simp [ipEq, ipEq64, h.acc, h.low, h.high, h1.symm, h2, this, h.reload]
  · have : rule ≠ ip := fun e => h1 (by rw [e])
    simp [ipEq, ipEq64, h.acc, h.high, h1, this, h.reload]

/-- STEP1 of a range: below `first` nothing matches, otherwise the second half
    of the block decides. -/
theorem exec_ipRange_first (h : HoldsIp r ip) (first last : UInt64) (a : Action) :
    exec load (ipRange first last a.toSockFilter ++ rest) 0 r =
      if ip < first then exec load rest 0 r
      else exec load ((ipRange first last a.toSockFilter).drop 5 ++ rest) 0 r := by
  simp only [lt_iff_halves ip first]
  by_cases h1 : hi first < hi ip
  · have hlt : ¬ hi ip < hi first := UInt32.not_lt.2 (UInt32.le_of_lt h1)
    have hne : ¬ hi ip = hi first := (UInt32.ne_of_lt h1).symm
    simp [ipRange, ipRange64, h.acc, h1, hlt, hne]
  · by_cases h2 : hi ip = hi first
    · by_cases h3 : lo first ≤ lo ip
      · simp [ipRange, ipRange64, h.acc, h.low, h.high, ← h2, h3, h.reload]
      · simp [ipRange, ipRange64, h.acc, h.low, h.high, ← h2, h3, h.reload]
    · have hlt : hi ip < hi first := UInt32.lt_of_le_of_ne (UInt32.not_lt.1 h1) h2
      simp [ipRange, ipRange64, h.acc, h.high, h1, h2, hlt, h.reload]

theorem exec_ipRange_last (h : HoldsIp r ip) (first last : UInt64) (a : Action) :
    exec load ((ipRange first last a.toSockFilter).drop 5 ++ rest) 0 r =
      if ip < last then .ok a.toU32 else exec load rest 0 r := by
  simp only [lt_iff_halves ip last]
  by_cases h1 : hi last < hi ip
  · have hlt : ¬ hi ip < hi last := UInt32.not_lt.2 (UInt32.le_of_lt h1)
    have hne : ¬ hi ip = hi last := (UInt32.ne_of_lt h1).symm
    simp [ipRange, ipRange64, h.acc, h.high, h1, hlt, hne, h.reload]
  · by_cases h2 : hi ip = hi last
    · by_cases h3 : lo last ≤ lo ip
      · simp [ipRange, ipRange64, h.acc, h.low, h.high, ← h2, h3, h.reload]
      · simp [ipRange, ipRange64, Action.toSockFilter, h.acc, h.low, ← h2, h3]
    · have hlt : hi ip < hi last := UInt32.lt_of_le_of_ne (UInt32.not_lt.1 h1) h2
      simp [ipRange, ipRange64, Action.toSockFilter, h.acc, h1, h2, hlt]

theorem exec_ipRange (h : HoldsIp r ip) (first last : UInt64) (a : Action) :
    exec load (ipRange first last a.toSockFilter ++ rest) 0 r =
      if first ≤ ip ∧ ip < last then .ok a.toU32 else exec load rest 0 r := by
  rw [exec_ipRange_first load rest h, exec_ipRange_last load rest h]
  by_cases h1 : ip < first
  · simp [UInt64.not_le.2 h1]
  · simp [UInt64.not_lt.1 h1]

theorem exec_syscall (nr : Sysno) (a : Action) :
    exec load (syscall nr a.toSockFilter ++ rest) 0 r =
      if nr = r.acc.toInt32 then .ok a.toU32 else exec load rest 0 r := by
  have : r.acc = nr.toUInt32 ↔ nr = r.acc.toInt32 :=
    ⟨fun e => by rw [e]; simp, fun e => by rw [e]; simp⟩
  by_cases hn : nr = r.acc.toInt32
  · simp [syscall, Action.toSockFilter, this.2 hn]
  · simp [syscall, this, hn]

end

/-! ## Running a list of rules -/

section
variable (load : UInt32 → Option UInt32) (rest : List SockFilter)

/-- A list of rules whose blocks return on a match and otherwise fall through
    with the same registers runs to its first match. -/
theorem exec_rules {α : Type} (r : Regs) (block : α → List SockFilter) (test : α → Bool)
    (action : α → Action)
    (hblock : ∀ x tail, exec load (block x ++ tail) 0 r =
      if test x then .ok (action x).toU32 else exec load tail 0 r) :
    ∀ rules : List α, exec load (rules.flatMap block ++ rest) 0 r =
      match rules.find? test with
      | some x => .ok (action x).toU32
      | none => exec load rest 0 r
  | [] => rfl
  | x :: rules => by
    rw [flatMap_cons, append_assoc, hblock]
    by_cases hx : test x
    · simp [hx]
    · simp [hx, exec_rules r block test action hblock rules]

def ipRegs (ip : UInt64) : Regs :=
  ⟨hi ip, fun j => if j = 1 then hi ip else if j = 0 then lo ip else 0⟩

theorem holdsIp_ipRegs (ip : UInt64) : HoldsIp (ipRegs ip) ip := ⟨rfl, rfl, rfl⟩

end

section
variable (e : Endian) (d : SeccompData) (rest : List SockFilter)

theorem load_nr : d.load e SECCOMP_DATA_OFFSET_NR = some d.nr := rfl

theorem load_arch : d.load e SECCOMP_DATA_OFFSET_ARCH = some d.arch := rfl

theorem load_ip_lo : d.load e (SECCOMP_DATA_OFFSET_IP_LO e) = some (lo d.instructionPointer) := by
  cases e <;> rfl

theorem load_ip_hi : d.load e (SECCOMP_DATA_OFFSET_IP_HI e) = some (hi d.instructionPointer) := by
  cases e <;> rfl

theorem exec_loadSyscallIp (acc : UInt32) :
    exec (d.load e) (loadSyscallIp e ++ rest) 0 { Regs.init with acc := acc } =
      exec (d.load e) rest 0 (ipRegs d.instructionPointer) := by
  simp [loadSyscallIp, load_ip_lo, load_ip_hi, Regs.init, ipRegs]

variable (b : FilterBuilder)

theorem exec_ipCode (acc : UInt32) :
    ∃ r, exec (d.load e) (b.ipCode e ++ rest) 0 { Regs.init with acc := acc } =
      match (b.pointerRule d.instructionPointer).or (b.rangeRule d.instructionPointer) with
      | some a => .ok a.toU32
      | none => exec (d.load e) rest 0 r := by
  by_cases h : (!b.instructionPointers.isEmpty || !b.ipRanges.isEmpty) = true
  · have hip := holdsIp_ipRegs d.instructionPointer
    refine ⟨ipRegs d.instructionPointer, ?_⟩
    rw [FilterBuilder.ipCode, if_pos h]
    simp only [append_assoc, exec_loadSyscallIp]
    rw [exec_rules (d.load e) _ (ipRegs d.instructionPointer)
        (fun x : UInt64 × Action => ipEq x.1 x.2.toSockFilter)
        (fun x => x.1 == d.instructionPointer) (fun x => x.2)
        (fun x tail => by simp [exec_ipEq _ _ hip]),
      exec_rules (d.load e) _ (ipRegs d.instructionPointer)
        (fun x : UInt64 × UInt64 × Action => ipRange x.1 x.2.1 x.2.2.toSockFilter)
        (fun x => x.1 ≤ d.instructionPointer && d.instructionPointer < x.2.1) (fun x => x.2.2)
        (fun x tail => by simp [exec_ipRange _ _ hip])]
    simp only [FilterBuilder.pointerRule, FilterBuilder.rangeRule]
    rcases b.instructionPointers.find? _ with _ | x
    · rcases b.ipRanges.find? _ with _ | y
      · simp
      · simp
    · simp
  · have hp : b.instructionPointers = [] := by by_contra hc; simp [hc] at h
    have hr : b.ipRanges = [] := by by_contra hc; simp [hc] at h
    simp [FilterBuilder.ipCode, FilterBuilder.pointerRule, FilterBuilder.rangeRule, hp, hr]

theorem find_syscall (nr : UInt32) :
    (b.syscalls.toList.find? fun x => x.1 == nr.toInt32).map (·.2) = b.syscallRule nr := by
  rw [FilterBuilder.syscallRule]
  rcases hf : b.syscalls.toList.find? fun x => x.1 == nr.toInt32 with _ | ⟨n, a⟩
  · rcases hg : b.syscalls[nr.toInt32]? with _ | a
    · simp only [hf, Option.map_none]
    · have hmem := Std.TreeMap.mem_toList_iff_getElem?_eq_some.2 hg
      have := find?_eq_none.1 hf _ hmem
      simp at this
  · have hmem := mem_of_find?_eq_some hf
    have hn : n = nr.toInt32 := by simpa using find?_some hf
    rw [hn] at hmem
    rw [Std.TreeMap.mem_toList_iff_getElem?_eq_some.1 hmem]
    simp only [hf, Option.map_some]

theorem exec_syscallCode (r : Regs) :
    ∃ r', exec (d.load e) (b.syscallCode ++ rest) 0 r =
      match b.syscallRule d.nr with
      | some a => .ok a.toU32
      | none => exec (d.load e) rest 0 r' := by
  by_cases he : b.syscalls.isEmpty
  · have : b.syscallRule d.nr = none := Std.TreeMap.getElem?_of_isEmpty he
    exact ⟨r, by simp [FilterBuilder.syscallCode, he, this]⟩
  · refine ⟨{ r with acc := d.nr }, ?_⟩
    rw [FilterBuilder.syscallCode, if_pos (by simpa using he), cons_append, loadSyscallNr,
      exec_ldAbs _ _ _ (load_nr e d),
      exec_rules (d.load e) _ _ (fun x : Sysno × Action => syscall x.1 x.2.toSockFilter)
        (fun x => x.1 == d.nr.toInt32) (fun x => x.2)
        (fun x tail => by simp [exec_syscall]), ← find_syscall]
    rcases b.syscalls.toList.find? _ with _ | x
    · rfl
    · rfl

/-- The rules of the target architecture, and the default action after them. -/
theorem exec_targetCode (acc : UInt32) :
    exec (d.load e) (b.ipCode e ++ (b.syscallCode ++ [b.defaultAction.toSockFilter])) 0
        { Regs.init with acc := acc } =
      .ok (((b.pointerRule d.instructionPointer).or
        ((b.rangeRule d.instructionPointer).or (b.syscallRule d.nr))).getD b.defaultAction).toU32 := by
  obtain ⟨r, hip⟩ := exec_ipCode e d (b.syscallCode ++ [b.defaultAction.toSockFilter]) b acc
  obtain ⟨r', hsys⟩ := exec_syscallCode e d [b.defaultAction.toSockFilter] b r
  rw [hip, hsys, ← Option.or_assoc]
  rcases (b.pointerRule d.instructionPointer).or (b.rangeRule d.instructionPointer) with _ | a
  · rcases b.syscallRule d.nr with _ | a
    · rfl
    · rfl
  · rfl

/-- **The filter returns the verdict.**  Running the program of `build` never
    leaves the program and returns the action of the first matching rule. -/
theorem run_build :
    run (b.build e) (d.load e) ((b.build e).length + 1) 0 Regs.init =
      .ok (b.verdict d).toU32 := by
  rw [run_eq_exec, FilterBuilder.build, FilterBuilder.verdict, FilterBuilder.archCode,
    append_assoc, append_assoc]
  rcases halt : b.alternateArch with _ | ⟨arch, action⟩
  · simp only [exec_validateArch _ _ _ (load_arch e d), exec_targetCode]
    split_ifs
    · rfl
    · rfl
  · simp only [exec_validateArchOrAlternate _ _ _ (load_arch e d), exec_targetCode]
    split_ifs
    · rfl
    · rfl
    · rfl

end

end Reverie.Seccomp
