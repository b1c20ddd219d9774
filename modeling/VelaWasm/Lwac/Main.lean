/-
The exit status of `lwac`. `main` keeps the result of `parse_arguments`, which is 0 once it goes on, in
the variable it returns, and leaves it there when the file cannot be loaded, the runtime cannot be
initialised or the file is not XIP: it then reports success. On every other command line and outcome the
status tells success from failure.
-/
import VelaWasm.Lwac.Execute

namespace VelaWasm.Lwac

/-! ## The command line -/

/-- A return of `getopt_long`: the code of the option, `?` for one it does not know, and `optarg`. -/
structure Getopt where
  opt : Char
  optarg : CString
  deriving DecidableEq, Repr

/-- The C library and the configuration: the options that `getopt_long` finds on a command line with the
operands that follow them, `atoi`, and the default sizes. -/
structure Libc where
  getoptLong : List CString → List Getopt × List CString
  atoi : CString → Int32
  defaultAppStackSize : Int32
  defaultAppHeapSize : Int32

/-- `lwac_args_t` -/
structure LwacArgs where
  filename : Option CString
  stackSize : Int32
  heapSize : Int32
  noMmap : Bool
  entryFunc : Option CString
  showPs : Bool
  deriving DecidableEq, Repr

/-- The parameters that `main` packs into `exec_params`. -/
def LwacArgs.params (args : LwacArgs) : ExecParams :=
  ⟨args.stackSize, args.heapSize, args.entryFunc, args.filename⟩

section

variable (L : Libc)

/-- The loop of `parse_arguments`, with `f_flag`; an error is the value it returns. -/
def parseOptions : List Getopt → LwacArgs → Bool → Except Int32 (LwacArgs × Bool)
  | [], args, fFlag => .ok (args, fFlag)
  | ⟨opt, optarg⟩ :: options, args, fFlag =>
    match opt with
    | 'm' => parseOptions options { args with filename := some optarg } true
    | 'f' => parseOptions options { args with entryFunc := some optarg } fFlag
    | 's' =>
      if L.atoi optarg ≤ 0 then .error (-1)
      else parseOptions options { args with stackSize := L.atoi optarg } fFlag
    | 'e' =>
      if L.atoi optarg ≤ 0 then .error (-1)
      else parseOptions options { args with heapSize := L.atoi optarg } fFlag
    | 'n' => parseOptions options { args with noMmap := true } fFlag
    | 'p' => parseOptions options { args with showPs := true } fFlag
    | 'h' => .error 1
    | _ => .error (-1)

/-- `parse_arguments`; it returns 0 with the parsed arguments, or another value. -/
def parseArguments (argv : List CString) : Except Int32 LwacArgs :=
  match L.getoptLong argv with
  | (options, operands) =>
    match parseOptions L options ⟨none, L.defaultAppStackSize, L.defaultAppHeapSize, false, none, false⟩ false with
    | .error ret => .error ret
    | .ok (args, fFlag) =>
      -- an operand next to `-m` is only warned about
      let args := if !fFlag && !operands.isEmpty then { args with filename := operands.head? } else args
      if args.filename.isNone && !args.showPs then .error (-1) else .ok args

end

/-! ## The stages -/

/-- What the calls of `load_file` return: the descriptor, the result of `fstat` and the size it finds,
the memory, the bytes read, and the mapping, `none` for `MAP_FAILED`. -/
structure FileAnswers where
  fd : Int32
  fstat : Int32
  stSize : Int64
  malloc : Addr
  bytesRead : Int64
  mmap : Option Addr
  deriving DecidableEq, Repr

/-- `load_file`: the content, null on error, and `*size`. -/
def loadFile (a : FileAnswers) (useMalloc : Bool) : Addr × Int32 :=
  if a.fd < 0 then (null, 0)
  else if a.fstat ≠ 0 then (null, 0)
  else if useMalloc then
    if a.malloc = null then (null, a.stSize.toInt32)
    else if a.bytesRead ≠ a.stSize then (null, a.stSize.toInt32)
    else (a.malloc, a.stSize.toInt32)
  else
    match a.mmap with
    | none => (null, a.stSize.toInt32)
    | some content => (content, a.stSize.toInt32)

/-- `g_wasm_runtime_ref_count` when the mutex is taken, and what `wasm_runtime_init` and the external
modules answer. -/
structure RuntimeAnswers where
  refCount : ℤ
  runtimeInit : Bool
  modules : List Bool
  deriving DecidableEq, Repr

/-- The value `lwac_runtime_init` returns. -/
def lwacRuntimeInit (a : RuntimeAnswers) : Int32 :=
  if a.refCount = 0 then
    if !a.runtimeInit then -1
    else if a.modules.all id then 0
    else -1
  else 0

/-- What the calls of `execute_wasm_module` answer: the handles, the functions the module exports, and
whether the call ends without an exception. -/
structure ModuleAnswers where
  load : Option Addr
  instantiate : Option Addr
  createExecEnv : Option Addr
  exports : List CString
  callWasm : Bool
  deriving DecidableEq, Repr

/-- The value `execute_wasm_module` returns. -/
def executeWasmModule (params : ExecParams) (a : ModuleAnswers) : ExitCode :=
  match a.load, a.instantiate, a.createExecEnv, entryFunction a.exports params.entryFunc with
  | some _, some _, some _, some _ => if a.callWasm then .success else .failure
  | _, _, _, _ => .failure

/-! ## The program -/

/-- `EXIT_SUCCESS` and `EXIT_FAILURE` -/
def ExitCode.toInt32 : ExitCode → Int32
  | .success => 0
  | .failure => 1

structure Answers where
  file : FileAnswers
  runtime : RuntimeAnswers
  isXipFile : Bool
  wasm : ModuleAnswers
  deriving DecidableEq, Repr

/-- `main`: the exit status of the command line `argv`. -/
def main (L : Libc) (argv : List CString) (a : Answers) : Int32 :=
  match parseArguments L argv with
  | .error ret => if ret < 0 then ExitCode.failure.toInt32 else ExitCode.success.toInt32
  | .ok args =>
    -- `ret` holds what `parse_arguments` has returned
    let ret : Int32 := 0
    if args.showPs then ExitCode.success.toInt32
    else if (loadFile a.file args.noMmap).1 = null then ret
    else if lwacRuntimeInit a.runtime ≠ 0 then ret
    else if !a.isXipFile && !args.noMmap then ret
    else (executeWasmModule args.params a.wasm).toInt32

/-! ## The status -/

section

variable (L : Libc) (argv : List CString) (a : Answers)

/-- The file is there, the runtime is up, and the file may run where it is. -/
def Ready (args : LwacArgs) : Prop :=
  (loadFile a.file args.noMmap).1 ≠ null ∧ lwacRuntimeInit a.runtime = 0 ∧
    (a.isXipFile = true ∨ args.noMmap = true)

/-- The module is loaded and instantiated, its entry function is found, and it runs without an
exception. -/
def Ran (args : LwacArgs) : Prop :=
  a.wasm.load.isSome ∧ a.wasm.instantiate.isSome ∧ a.wasm.createExecEnv.isSome ∧
    (entryFunction a.wasm.exports args.entryFunc).isSome ∧ a.wasm.callWasm = true

/-- Help is shown, the running modules are, or the module is run to its end. -/
def Succeeds : Prop :=
  parseArguments L argv = .error 1 ∨
    ∃ args, parseArguments L argv = .ok args ∧ (args.showPs = true ∨ Ready a args ∧ Ran a args)

/-- The exit status says whether the program succeeds. -/
def ReportsOutcome : Prop :=
  (main L argv a = ExitCode.success.toInt32 ↔ Succeeds L argv a) ∧
    (¬ Succeeds L argv a → main L argv a = ExitCode.failure.toInt32)

/-- A module is to be run and the program gives up before `execute_wasm_module`. -/
def GivesUp : Prop := ∃ args, parseArguments L argv = .ok args ∧ args.showPs = false ∧ ¬ Ready a args

end

theorem parseOptions_error {L : Libc} {options : List Getopt} {args : LwacArgs} {fFlag : Bool} {ret : Int32}
    (h : parseOptions L options args fFlag = .error ret) : ret = 1 ∨ ret = -1 := by
  induction options generalizing args fFlag with
  | nil => cases h
  | cons o options ih =>
    unfold parseOptions at h
    split at h
    case h_3 | h_4 =>
      split_ifs at h
      · cases h
        exact .inr rfl
      · exact ih h
    case h_7 => cases h; exact .inl rfl
    case h_8 => cases h; exact .inr rfl
    all_goals exact ih h

/-- A command line that is not run asks for help or is refused. -/
theorem parseArguments_error {L : Libc} {argv : List CString} {ret : Int32}
    (h : parseArguments L argv = .error ret) : ret = 1 ∨ ret = -1 := by
  simp only [parseArguments] at h
  split at h
  · rename_i hp
    cases h
    exact parseOptions_error hp
  · split_ifs at h
    all_goals (cases h; exact .inr rfl)

theorem executeWasmModule_eq_success {a : Answers} {args : LwacArgs} :
    executeWasmModule args.params a.wasm = .success ↔ Ran a args := by
  simp only [executeWasmModule, Ran, LwacArgs.params]
  cases a.wasm.load with
  | none => simp
  | some m =>
    cases a.wasm.instantiate with
    | none => simp
    | some i =>
      cases a.wasm.createExecEnv with
      | none => simp
      | some e => cases entryFunction a.wasm.exports args.entryFunc <;> cases a.wasm.callWasm <;> simp

theorem ExitCode.toInt32_eq_success {e : ExitCode} : e.toInt32 = ExitCode.success.toInt32 ↔ e = .success := by
  cases e <;> decide

/-- A module that is run and ready to be executed ends with the status of its execution. -/
theorem main_of_ready {L : Libc} {argv : List CString} {a : Answers} {args : LwacArgs}
    (hp : parseArguments L argv = .ok args) (hps : args.showPs = false) (hr : Ready a args) :
    main L argv a = (executeWasmModule args.params a.wasm).toInt32 := by
  obtain ⟨hload, hinit, hxip⟩ := hr
  simp only [main, hp, hps]
  rw [if_neg Bool.false_ne_true, if_neg hload, if_neg (not_not_intro hinit), if_neg]
  rcases hxip with h | h <;> simp [h]

/-- One that gives up before ends with the result of `parse_arguments`. -/
theorem main_of_givesUp {L : Libc} {argv : List CString} {a : Answers} (h : GivesUp L argv a) :
    main L argv a = ExitCode.success.toInt32 := by
  obtain ⟨args, hp, hps, hr⟩ := h
  simp only [main, hp, hps]
  rw [if_neg Bool.false_ne_true]
  split_ifs with h1 h2 h3
  · rfl
  · rfl
  · rfl
  · refine absurd ⟨h1, not_not.1 h2, ?_⟩ hr
    simp only [Bool.and_eq_true, Bool.not_eq_true', not_and, Bool.not_eq_false] at h3
    cases hx : a.isXipFile with
    | true => exact .inl rfl
    | false => exact .inr (h3 hx)

theorem not_succeeds_of_givesUp {L : Libc} {argv : List CString} {a : Answers} (h : GivesUp L argv a) :
    ¬ Succeeds L argv a := by
  obtain ⟨args, hp, hps, hr⟩ := h
  rintro (he | ⟨args', hp', hs⟩)
  · rw [hp] at he
    cases he
  · rw [hp] at hp'
    cases hp'
    rcases hs with hs | hs
    · rw [hps] at hs
      cases hs
    · exact hr hs.1

/-- The exit status says whether the program succeeds unless it gives up on a module before it executes
it. -/
theorem reportsOutcome_iff (L : Libc) (argv : List CString) (a : Answers) :
    ReportsOutcome L argv a ↔ ¬ GivesUp L argv a := by
  constructor
  · intro h hg
    exact not_succeeds_of_givesUp hg (h.1.1 (main_of_givesUp hg))
  · intro hg
    cases hp : parseArguments L argv with
    | error ret =>
      have hs : Succeeds L argv a ↔ ret = 1 := by simp [Succeeds, hp]
      have hm : main L argv a = if ret < 0 then ExitCode.failure.toInt32 else ExitCode.success.toInt32 := by
        simp only [main, hp]
      rw [ReportsOutcome, hs, hm]
      rcases parseArguments_error hp with rfl | rfl <;> decide
    | ok args =>
      cases hps : args.showPs with
      | true =>
        have hs : Succeeds L argv a := .inr ⟨args, hp, .inl hps⟩
        have hm : main L argv a = ExitCode.success.toInt32 := by simp [main, hp, hps]
        exact ⟨iff_of_true hm hs, fun hn => absurd hs hn⟩
      | false =>
        have hr : Ready a args := by
          by_contra hr
          exact hg ⟨args, hp, hps, hr⟩
        have hs : Succeeds L argv a ↔ Ran a args := by simp [Succeeds, hp, hps, hr]
        rw [ReportsOutcome, main_of_ready hp hps hr, hs, ExitCode.toInt32_eq_success,
          executeWasmModule_eq_success]
        refine ⟨Iff.rfl, fun hn => ?_⟩
        cases he : executeWasmModule args.params a.wasm with
        | success => exact absurd (executeWasmModule_eq_success.1 he) hn
        | failure => rfl

/-- A C library that finds no options; the operands are the arguments after the program's name. -/
def operandsOnly : Libc := ⟨fun argv => ([], argv.tail), fun _ => 0, 2048, 4096⟩

/-- `lwac missing.aot`, where `open` fails. -/
theorem missing_file_succeeds :
    ¬ ∀ (L : Libc) (argv : List CString) (a : Answers), ReportsOutcome L argv a := by
  intro h
  have hg : GivesUp operandsOnly ["lwac".toList, "missing.aot".toList]
      ⟨⟨-1, 0, 0, null, 0, none⟩, ⟨0, true, []⟩, true, ⟨none, none, none, [], false⟩⟩ :=
    ⟨⟨some "missing.aot".toList, 2048, 4096, false, none, false⟩, rfl, rfl, fun hr => hr.1 rfl⟩
  exact not_succeeds_of_givesUp hg ((h _ _ _).1.1 (main_of_givesUp hg))

end VelaWasm.Lwac
