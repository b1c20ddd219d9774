/-
`execute_wasm_module` runs, each going through its WAMR calls and its registry operations step by step,
and `lwac__print_running_modules` calls between their steps. A run that passes `cleanup_env` destroys its
exec env before it unregisters.
-/
import VelaWasm.Lwac.Registry
import Mathlib.Data.Finset.Basic

namespace VelaWasm.Lwac

/-! ## One run -/

/-- What `execute_wasm_module` reads of `lwac_exec_params_t`, apart from the file's content. -/
structure ExecParams where
  stackSize : Int32
  heapSize : Int32
  entryFunc : Option CString
  filePath : Option CString
  deriving DecidableEq, Repr

/-- The handles of a run that has created all three. -/
structure Handles where
  wasmModule : Addr
  moduleInst : Addr
  execEnv : Addr
  deriving DecidableEq, Repr

inductive ExitCode where
  | success | failure
  deriving DecidableEq, Repr

/-- The call `execute_wasm_module` makes next, with the handles and results it has so far. -/
inductive Stage where
  | load
  | instantiate (wasmModule : Addr)
  | createExecEnv (wasmModule moduleInst : Addr)
  | lookupFunction (h : Handles)
  | register (h : Handles) (entryFunc : CString)
  | callWasm (h : Handles) (entryFunc : CString) (moduleInfo : Option WasmModuleInfo)
  | destroyExecEnv (h : Handles) (moduleInfo : Option WasmModuleInfo) (ret : ExitCode)
  | unregister (wasmModule moduleInst : Addr) (moduleInfo : Option WasmModuleInfo) (ret : ExitCode)
  | deinstantiate (wasmModule moduleInst : Addr) (ret : ExitCode)
  | unload (wasmModule : Addr) (ret : ExitCode)
  | returned (ret : ExitCode)
  deriving DecidableEq, Repr

structure Execution where
  params : ExecParams
  stage : Stage
  deriving DecidableEq, Repr

/-- The names tried when no entry function is given. -/
def defaultEntryFuncs : List CString := ["__main_argc_argv".toList, "_main".toList, "main".toList]

/-- The entry function, in a module that exports `exports`. -/
def entryFunction (exports : List CString) : Option CString → Option CString
  | some (c :: name) => if c :: name ∈ exports then some (c :: name) else none
  | _ => defaultEntryFuncs.find? fun name => decide (name ∈ exports)

/-- The name a run registers under. -/
def ExecParams.registeredName (params : ExecParams) : CString := params.filePath.getD "unknown".toList

/-! ## All runs -/

/-- The handles WAMR has created and not destroyed, the registry, the runs, and the printers that hold
its read lock. -/
structure LwacState where
  modules : Finset Addr
  moduleInsts : Finset Addr
  execEnvs : Finset Addr
  registry : Registry
  executions : List Execution
  printers : List Printer

def LwacState.start : LwacState := ⟨∅, ∅, ∅, ⟨[], 0⟩, [], []⟩

inductive LwacAction where
  /-- `execute_wasm_module` is called -/
  | execute (params : ExecParams)
  /-- run `i` makes its next call; the argument is what WAMR answers -/
  | load (i : ℕ) (handle : Option Addr)
  | instantiate (i : ℕ) (handle : Option Addr)
  | createExecEnv (i : ℕ) (handle : Option Addr)
  | lookupFunction (i : ℕ) (exports : List CString)
  | register (i : ℕ) (allocated : Bool) (now : Int64)
  | callWasm (i : ℕ) (ok : Bool)
  | destroyExecEnv (i : ℕ)
  | unregister (i : ℕ)
  | deinstantiate (i : ℕ)
  | unload (i : ℕ)
  /-- `lwac__print_running_modules` takes the read lock -/
  | printStart (now : Int64)
  | printRow (j : ℕ) (heapInfo : Option MemAllocInfo) (aux : Option UInt32)
  | printEnd (j : ℕ)
  deriving Repr

/-- WAMR returns a handle that is not null and not in use. -/
def Created (live : Finset Addr) (a : Addr) : Prop := a ≠ null ∧ a ∉ live

instance (live : Finset Addr) (a : Addr) : Decidable (Created live a) := inferInstanceAs (Decidable (_ ∧ _))

/-! ## Steps of a run -/

section

variable (s : LwacState) (i : ℕ)

/-- Run `i` goes on with `stage`. -/
def LwacState.enter (params : ExecParams) (stage : Stage) : LwacState :=
  { s with executions := s.executions.set i ⟨params, stage⟩ }

def LwacState.load (handle : Option Addr) : Option LwacState :=
  match s.executions[i]?, handle with
  | some ⟨params, .load⟩, none => some (s.enter i params (.returned .failure))
  | some ⟨params, .load⟩, some a =>
    if Created s.modules a then some { s.enter i params (.instantiate a) with modules := insert a s.modules }
    else none
  | _, _ => none

def LwacState.instantiate (handle : Option Addr) : Option LwacState :=
  match s.executions[i]?, handle with
  | some ⟨params, .instantiate m⟩, none => some (s.enter i params (.unload m .failure))
  | some ⟨params, .instantiate m⟩, some a =>
    if Created s.moduleInsts a then
      some { s.enter i params (.createExecEnv m a) with moduleInsts := insert a s.moduleInsts }
    else none
  | _, _ => none

def LwacState.createExecEnv (handle : Option Addr) : Option LwacState :=
  match s.executions[i]?, handle with
  | some ⟨params, .createExecEnv m inst⟩, none => some (s.enter i params (.deinstantiate m inst .failure))
  | some ⟨params, .createExecEnv m inst⟩, some a =>
    if Created s.execEnvs a then
      some { s.enter i params (.lookupFunction ⟨m, inst, a⟩) with execEnvs := insert a s.execEnvs }
    else none
  | _, _ => none

def LwacState.lookupFunction (exports : List CString) : Option LwacState :=
  match s.executions[i]? with
  | some ⟨params, .lookupFunction h⟩ =>
    match entryFunction exports params.entryFunc with
    | none => some (s.enter i params (.destroyExecEnv h none .failure))
    | some entry => some (s.enter i params (.register h entry))
  | _ => none

def LwacState.register (allocated : Bool) (now : Int64) : Option LwacState :=
  match s.executions[i]? with
  | some ⟨params, .register h entry⟩ =>
    if s.printers.isEmpty then
      let (registry, moduleInfo) := lwacRegisterWasmModule s.registry allocated now params.registeredName
        params.stackSize params.heapSize h.wasmModule h.moduleInst h.execEnv
      some { s.enter i params (.callWasm h entry moduleInfo) with registry }
    else none
  | _ => none

def LwacState.callWasm (ok : Bool) : Option LwacState :=
  match s.executions[i]? with
  | some ⟨params, .callWasm h _ moduleInfo⟩ =>
    some (s.enter i params (.destroyExecEnv h moduleInfo (if ok then .success else .failure)))
  | _ => none

def LwacState.destroyExecEnv : Option LwacState :=
  match s.executions[i]? with
  | some ⟨params, .destroyExecEnv h moduleInfo ret⟩ =>
    some { s.enter i params (.unregister h.wasmModule h.moduleInst moduleInfo ret) with
      execEnvs := s.execEnvs.erase h.execEnv }
  | _ => none

def LwacState.unregister : Option LwacState :=
  match s.executions[i]? with
  | some ⟨params, .unregister m inst _ ret⟩ =>
    -- the guard `if (module_inst)` holds here: a created instance is not null
    if s.printers.isEmpty then
      some { s.enter i params (.deinstantiate m inst ret) with
        registry := (lwacUnregisterWasmModule s.registry inst).1 }
    else none
  | _ => none

def LwacState.deinstantiate : Option LwacState :=
  match s.executions[i]? with
  | some ⟨params, .deinstantiate m inst ret⟩ =>
    some { s.enter i params (.unload m ret) with moduleInsts := s.moduleInsts.erase inst }
  | _ => none

def LwacState.unload : Option LwacState :=
  match s.executions[i]? with
  | some ⟨params, .unload m ret⟩ =>
    some { s.enter i params (.returned ret) with modules := s.modules.erase m }
  | _ => none

end

/-! ## Steps of the system -/

/-- A round of the loop of printer `j`. -/
def LwacState.printRow (profiling : Bool) (s : LwacState) (j : ℕ) (heapInfo : Option MemAllocInfo)
    (aux : Option UInt32) : Option LwacState :=
  s.printers[j]?.bind fun p =>
    (p.print profiling heapInfo aux).map fun q => { s with printers := s.printers.set j q }

/-- Printer `j` unlocks. -/
def LwacState.printEnd (s : LwacState) (j : ℕ) : Option LwacState :=
  match s.printers[j]? with
  | some ⟨_, [], _⟩ => some { s with printers := s.printers.eraseIdx j }
  | _ => none

/-- A step; `none` where the action cannot be taken: the run is at another call, the handle is in use,
or a printer holds the lock that a registry operation needs. -/
def lwacStep (profiling : Bool) (s : LwacState) : LwacAction → Option LwacState
  | .execute params => some { s with executions := s.executions ++ [⟨params, .load⟩] }
  | .load i handle => s.load i handle
  | .instantiate i handle => s.instantiate i handle
  | .createExecEnv i handle => s.createExecEnv i handle
  | .lookupFunction i exports => s.lookupFunction i exports
  | .register i allocated now => s.register i allocated now
  | .callWasm i ok => s.callWasm i ok
  | .destroyExecEnv i => s.destroyExecEnv i
  | .unregister i => s.unregister i
  | .deinstantiate i => s.deinstantiate i
  | .unload i => s.unload i
  | .printStart now =>
    some { s with printers := s.printers ++ [⟨now, s.registry.moduleListHead, []⟩] }
  | .printRow j heapInfo aux => s.printRow profiling j heapInfo aux
  | .printEnd j => s.printEnd j

end VelaWasm.Lwac
