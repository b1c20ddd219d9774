/-
Runs of `lwac`, side by side. Each goes through `main`: it loads its file, takes part in the shared runtime,
calls `execute_wasm_module`, and frees the file; every step of each may be interleaved with those of the others.
A run keeps a ledger of what it has acquired and released, and of its changes to the reference count.
-/
import VelaWasm.Lwac.Entries
import VelaWasm.Lwac.Main
import VelaWasm.Lwac.Runtime

namespace VelaWasm.Lwac

/-! ## The file -/

/-- The content that `load_file` returns and its `*size`, for `free_file_content`. -/
structure FileContent where
  content : Addr
  size : Int32
  useMalloc : Bool
  deriving DecidableEq, Repr

/-- What `load_file` acquires, the latest first. -/
def fileAcquires (a : FileAnswers) (useMalloc : Bool) : List Resource :=
  if a.fd < 0 then []
  else if a.fstat ≠ 0 then [.fd a.fd]
  else if useMalloc then
    if a.malloc = null then [.fd a.fd] else [.buffer a.malloc, .fd a.fd]
  else
    match a.mmap with
    | none => [.fd a.fd]
    | some content => [.mapping content a.stSize.toUInt64.toUInt32, .fd a.fd]

/-- What `load_file` releases: the descriptor, and the buffer of a file that cannot be read whole. -/
def fileReleases (a : FileAnswers) (useMalloc : Bool) : List Resource :=
  if a.fd < 0 then []
  else if a.fstat ≠ 0 then [.fd a.fd]
  else if useMalloc then
    if a.malloc = null then [.fd a.fd]
    else if a.bytesRead ≠ a.stSize then [.fd a.fd, .buffer a.malloc]
    else [.fd a.fd]
  else [.fd a.fd]

/-- What `free_file_content` releases. -/
def freeFileContent (file : FileContent) : List Resource :=
  if file.content ≠ null then
    if file.useMalloc then [.buffer file.content] else [.mapping file.content file.size.toUInt32]
  else []

/-! ## One run -/

/-- Where a run of `main` is. -/
inductive MainPc where
  /-- at `lwac__print_running_modules()` -/
  | printRunningModules
  /-- in it, with the read lock -/
  | printing
  | loadFile (args : LwacArgs)
  /-- in `lwac_runtime_init` or `lwac_runtime_destroy`, as instance `inst` of the runtime -/
  | runtime (args : LwacArgs) (file : FileContent) (inst : ℕ) (ret : Int32)
  /-- at `wasm_runtime_is_xip_file` -/
  | isXipFile (args : LwacArgs) (file : FileContent) (inst : ℕ)
  /-- in `execute_wasm_module` -/
  | execute (args : LwacArgs) (file : FileContent) (inst execution : ℕ)
  /-- at `out:` -/
  | out (file : FileContent) (ret : Int32)
  | returned (ret : Int32)
  deriving DecidableEq, Repr

/-- A run of `main`, what it has acquired and released, and by how much it has changed
`g_wasm_runtime_ref_count`. -/
structure Process where
  pc : MainPc
  ledger : Ledger Resource
  refs : ℤ

/-- The file content that `main` holds. -/
def Process.file? (p : Process) : Option FileContent :=
  match p.pc with
  | .runtime _ file _ _ | .isXipFile _ file _ | .execute _ file _ _ | .out file _ => some file
  | .printRunningModules | .printing | .loadFile _ | .returned _ => none

def Process.instance? (p : Process) : Option ℕ :=
  match p.pc with
  | .runtime _ _ inst _ | .isXipFile _ _ inst | .execute _ _ inst _ => some inst
  | .printRunningModules | .printing | .loadFile _ | .out _ _ | .returned _ => none

def Process.execution? (p : Process) : Option ℕ :=
  match p.pc with
  | .execute _ _ _ execution => some execution
  | _ => none

/-! ## All runs -/

structure MainState where
  lwac : LwacState
  runtime : RuntimeState
  processes : List Process

def MainState.start : MainState := ⟨.start, .start, []⟩

inductive MainAction where
  /-- `main` is called -/
  | main (argv : List CString)
  /-- run `i` makes its next step; the arguments are what the calls in it answer -/
  | loadFile (i : ℕ) (answers : FileAnswers)
  | runtime (i : ℕ) (answer : Bool)
  | isXipFile (i : ℕ) (answer : Bool)
  | execute (i : ℕ) (call : LwacAction)
  | freeFileContent (i : ℕ)
  | printStart (i : ℕ) (now : Int64)
  | printRow (j : ℕ) (heapInfo : Option MemAllocInfo) (aux : Option UInt32)
  | printEnd (i j : ℕ)

/-- `out:` without a file -/
def outEmpty (ret : ExitCode) : MainPc := .out ⟨null, 0, false⟩ ret.toInt32

/-- `main` after `parse_arguments` -/
def mainPc (L : Libc) (argv : List CString) : MainPc :=
  match parseArguments L argv with
  | .error ret => outEmpty (if ret < 0 then .failure else .success)
  | .ok args => if args.showPs then .printRunningModules else .loadFile args

section

variable (s : MainState) (i : ℕ)

/-- Run `i` goes on as `p`. -/
def MainState.enter (p : Process) : MainState := { s with processes := s.processes.set i p }

/-- `load_file`, and on success the call of `lwac_runtime_init`; `mmap` never places a mapping at null. -/
def MainState.loadFile (modules : ℕ) (a : FileAnswers) : Option MainState :=
  match s.processes[i]? with
  | some ⟨.loadFile args, ledger, refs⟩ =>
    if a.mmap = some null then none
    else
      let file : FileContent := ⟨(Lwac.loadFile a args.noMmap).1, (Lwac.loadFile a args.noMmap).2, args.noMmap⟩
      let ledger := ledger.record (fileAcquires a args.noMmap) (fileReleases a args.noMmap)
      -- `ret` is still what `parse_arguments` has returned
      if file.content = null then some (s.enter i ⟨.out file 0, ledger, refs⟩)
      else
        (runtimeStep modules s.runtime .enter).map fun runtime =>
          { s.enter i ⟨.runtime args file s.runtime.instances.length 0, ledger, refs⟩ with runtime }
  | _ => none

/-- The next statement of `lwac_runtime_init` or `lwac_runtime_destroy`. -/
def MainState.runtimeNext (modules : ℕ) (answer : Bool) : Option MainState :=
  match s.processes[i]? with
  | some ⟨.runtime args file inst ret, ledger, refs⟩ =>
    (runtimeStep modules s.runtime (.next inst answer)).map fun (runtime : RuntimeState) =>
      let pc : MainPc :=
        match runtime.instances[inst]? with
        -- `lwac_runtime_init` has returned 0
        | some .lockDestroy => .isXipFile args file inst
        -- `lwac_runtime_init` has failed, or `lwac_runtime_destroy` has returned
        | some .ended => .out file ret
        | _ => .runtime args file inst ret
      { s.enter i ⟨pc, ledger, refs + (runtime.refCount - s.runtime.refCount)⟩ with runtime }
  | _ => none

/-- `wasm_runtime_is_xip_file`, and the call of `execute_wasm_module` if the file may run where it is. -/
def MainState.isXipFile (profiling : Bool) (answer : Bool) : Option MainState :=
  match s.processes[i]? with
  | some ⟨.isXipFile args file inst, ledger, refs⟩ =>
    -- `goto cleanup_runtime`
    if !answer && !args.noMmap then some (s.enter i ⟨.runtime args file inst 0, ledger, refs⟩)
    else
      (lwacStep profiling s.lwac (.execute args.params)).map fun lwac =>
        { s.enter i ⟨.execute args file inst s.lwac.executions.length, ledger, refs⟩ with lwac }
  | _ => none

/-- The next call of `execute_wasm_module`. -/
def MainState.execute (profiling : Bool) (call : LwacAction) : Option MainState :=
  match s.processes[i]? with
  | some ⟨.execute args file inst execution, ledger, refs⟩ =>
    if call.caller = some execution then
      (lwacStep profiling s.lwac call).map fun (lwac : LwacState) =>
        let pc : MainPc :=
          match lwac.executions[execution]? with
          | some ⟨_, .returned ret⟩ => .runtime args file inst ret.toInt32
          | _ => .execute args file inst execution
        { s.enter i ⟨pc, ledger.record (s.lwac.acquires call) (s.lwac.releases call), refs⟩ with lwac }
    else none
  | _ => none

def MainState.freeFileContent : Option MainState :=
  match s.processes[i]? with
  | some ⟨.out file ret, ledger, refs⟩ =>
    some (s.enter i ⟨.returned ret, ledger.record [] (Lwac.freeFileContent file), refs⟩)
  | _ => none

/-- `lwac --ps` takes the read lock. -/
def MainState.printStart (profiling : Bool) (now : Int64) : Option MainState :=
  match s.processes[i]? with
  | some ⟨.printRunningModules, ledger, refs⟩ =>
    (lwacStep profiling s.lwac (.printStart now)).map fun lwac => { s.enter i ⟨.printing, ledger, refs⟩ with lwac }
  | _ => none

/-- `lwac --ps` unlocks, at the end of the list. -/
def MainState.printEnd (profiling : Bool) (j : ℕ) : Option MainState :=
  match s.processes[i]? with
  | some ⟨.printing, ledger, refs⟩ =>
    (lwacStep profiling s.lwac (.printEnd j)).map fun lwac =>
      { s.enter i ⟨outEmpty .success, ledger, refs⟩ with lwac }
  | _ => none

end

/-- A step; `none` where the action cannot be taken. `modules` is the length of `g_wamr_modules`. -/
def mainStep (L : Libc) (modules : ℕ) (profiling : Bool) (s : MainState) : MainAction → Option MainState
  | .main argv => some { s with processes := s.processes ++ [⟨mainPc L argv, .empty, 0⟩] }
  | .loadFile i answers => s.loadFile i modules answers
  | .runtime i answer => s.runtimeNext i modules answer
  | .isXipFile i answer => s.isXipFile i profiling answer
  | .execute i call => s.execute i profiling call
  | .freeFileContent i => s.freeFileContent i
  | .printStart i now => s.printStart i profiling now
  | .printRow j heapInfo aux =>
    (lwacStep profiling s.lwac (.printRow j heapInfo aux)).map fun lwac => { s with lwac }
  | .printEnd i j => s.printEnd i profiling j

end VelaWasm.Lwac
