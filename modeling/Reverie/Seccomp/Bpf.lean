/-
  Classic BPF, as the kernel runs it over a seccomp filter.  `run` is the machine; `exec` runs
  a suffix of the program.  Jumps only go forward, so `exec` is structural, and running a
  block in front of any continuation is symbolic execution by `simp`.
-/
import Mathlib

namespace Reverie.Bpf
open List

/-! ## Instructions -/

/-- `struct sock_filter`. -/
structure SockFilter where
  code : UInt16
  jt : UInt8
  jf : UInt8
  k : UInt32

/-- The conditions of a jump. -/
inductive Cond where
  | eq | gt | ge

def Cond.test : Cond → UInt32 → UInt32 → Bool
  | .eq, a, k => a == k
  | .gt, a, k => k < a
  | .ge, a, k => k ≤ a

/-- The instructions a seccomp filter is made of. -/
inductive Insn where
  /-- `A = input[k]` -/
  | ldAbs (k : UInt32)
  /-- `A = M[k]` -/
  | ldMem (k : UInt32)
  /-- `M[k] = A` -/
  | st (k : UInt32)
  /-- `pc += (A cond k) ? jt : jf` -/
  | jump (c : Cond) (k : UInt32) (jt jf : ℕ)
  | ret (k : UInt32)

/-- The instruction of a code. -/
def SockFilter.decode (i : SockFilter) : Option Insn :=
  if i.code = 0x20 then some (.ldAbs i.k)
  else if i.code = 0x60 then some (.ldMem i.k)
  else if i.code = 0x02 then some (.st i.k)
  else if i.code = 0x15 then some (.jump .eq i.k i.jt.toNat i.jf.toNat)
  else if i.code = 0x25 then some (.jump .gt i.k i.jt.toNat i.jf.toNat)
  else if i.code = 0x35 then some (.jump .ge i.k i.jt.toNat i.jf.toNat)
  else if i.code = 0x06 then some (.ret i.k)
  else none

/-! ## The machine -/

/-- How a program goes wrong. -/
inductive Fault where
  /-- the program counter left the program -/
  | outside
  | illegal
  | badLoad
  | badScratch
  | outOfFuel
  deriving DecidableEq

/-- The number of scratch words (`BPF_MEMWORDS`). -/
def memWords : ℕ := 16

/-- Accumulator and scratch memory. -/
structure Regs where
  acc : UInt32
  mem : ℕ → UInt32

def Regs.init : Regs := ⟨0, fun _ => 0⟩

/-- What one instruction does: return a verdict, or go on with new registers
    after skipping some words. -/
inductive Effect where
  | ret (v : UInt32)
  | next (r : Regs) (skip : ℕ)

/-- What an instruction does. -/
def Insn.effect (load : UInt32 → Option UInt32) (r : Regs) : Insn → Except Fault Effect
  | .ldAbs k => match load k with
    | some v => .ok (.next { r with acc := v } 0)
    | none => .error .badLoad
  | .ldMem k =>
    if k.toNat < memWords then .ok (.next { r with acc := r.mem k.toNat } 0)
    else .error .badScratch
  | .st k =>
    if k.toNat < memWords then
      .ok (.next { r with mem := fun j => if j = k.toNat then r.acc else r.mem j } 0)
    else .error .badScratch
  | .jump c k jt jf => .ok (.next r (if c.test r.acc k then jt else jf))
  | .ret k => .ok (.ret k)

/-- Run the program from `pc`, for at most `fuel` instructions. -/
def run (prog : List SockFilter) (load : UInt32 → Option UInt32) :
    ℕ → ℕ → Regs → Except Fault UInt32
  | 0, _, _ => .error .outOfFuel
  | fuel + 1, pc, r => match prog[pc]? with
    | none => .error .outside
    | some i => match i.decode with
      | none => .error .illegal
      | some insn => match insn.effect load r with
        | .error e => .error e
        | .ok (.ret v) => .ok v
        | .ok (.next r' skip) => run prog load fuel (pc + 1 + skip) r'

/-! ## Running a suffix -/

/-- Run a suffix of a program after skipping its first `skip` words. -/
def exec (load : UInt32 → Option UInt32) : List SockFilter → ℕ → Regs → Except Fault UInt32
  | [], _, _ => .error .outside
  | _ :: rest, skip + 1, r => exec load rest skip r
  | i :: rest, 0, r => match i.decode with
    | none => .error .illegal
    | some insn => match insn.effect load r with
      | .error e => .error e
      | .ok (.ret v) => .ok v
      | .ok (.next r' skip) => exec load rest skip r'

theorem exec_skip (load : UInt32 → Option UInt32) (r : Regs) :
    ∀ (p : List SockFilter) (n : ℕ), exec load p n r = exec load (p.drop n) 0 r
  | [], n => by simp [exec]
  | _ :: rest, 0 => rfl
  | _ :: rest, n + 1 => by rw [exec, exec_skip load r rest n, drop_succ_cons]

/-- Every instruction moves the program counter forward, so a suffix of `n`
    words needs no more than `n + 1` fetches. -/
theorem run_eq_exec_drop (prog : List SockFilter) (load : UInt32 → Option UInt32) :
    ∀ (fuel pc : ℕ) (r : Regs), prog.length - pc < fuel →
      run prog load fuel pc r = exec load (prog.drop pc) 0 r := by
  intro fuel
  induction fuel with
  | zero => omega
  | succ fuel ih =>
    intro pc r h
    by_cases hpc : pc < prog.length
    · rw [run, getElem?_eq_getElem hpc, drop_eq_getElem_cons hpc, exec]
      rcases hd : (prog[pc]).decode with _ | insn
      · simp only [hd]
      · rcases he : insn.effect load r with e | v | ⟨r', skip⟩
        · simp only [hd, he]
        · simp only [hd, he]
        · simp only [hd, he]
          rw [ih (pc + 1 + skip) r' (by omega), exec_skip load r' _ skip, drop_drop]
    · rw [run, getElem?_eq_none (by omega), drop_eq_nil_of_le (by omega)]
      rfl

theorem run_eq_exec (prog : List SockFilter) (load : UInt32 → Option UInt32) (r : Regs) :
    run prog load (prog.length + 1) 0 r = exec load prog 0 r :=
  run_eq_exec_drop prog load _ 0 r (by omega)

end Reverie.Bpf
