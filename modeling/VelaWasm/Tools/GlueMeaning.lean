/-
What a generated glue function does. For a row of fixed arity the text of the function is that of a C program which
compares its pointer parameters with the address that WAMR makes of a null pointer, calls the native function and
translates a pointer that it returns. Run with the arguments that WAMR passes for the signature of the row, the program
gives the native function the pointers and the numbers of the wasm call exactly when WAMR translates the columns with a
`*` and no others, and the function compares them.
-/
import VelaWasm.Tools.Agreement
import VelaWasm.Tools.GenerateTable
import VelaWasm.Wamr

namespace VelaWasm.Tools

/-! ## Programs -/

/-- A statement of a glue function; a parameter is named by its number. -/
inductive Stmt where
  /-- the comparison of a parameter with `addr_app` -/
  | nullCheck (parm : Nat)
  /-- the call of the native function with parameters cast to types, its result assigned to `ret` and translated -/
  | call (assign addrcov : Bool) (callee : Text) (args : List (Text × Nat))
  | return_

/-- The definition of a glue function. -/
structure GlueCode where
  name : Text
  noreturn : Bool
  parms : List Nat
  /-- the local `addr_app` is declared -/
  addrApp : Bool
  body : List Stmt

def parmName (n : Nat) : Text := "parm".toList ++ decimal n

def argText (arg : Text × Nat) : Text := "(".toList ++ arg.1 ++ ")parm".toList ++ decimal arg.2

def argsText : List (Text × Nat) → Text
  | [] => []
  | arg :: args => argText arg ++ args.flatMap fun arg => ", ".toList ++ argText arg

def Stmt.text : Stmt → Text
  | .nullCheck n =>
    "  if ((void *)".toList ++ parmName n ++ " == addr_app)\n    ".toList ++ parmName n ++ " = (uintptr_t)NULL;\n\n".toList
  | .call assign addrcov callee args =>
    (if assign then "  ret = ".toList else "  ".toList) ++
      (if addrcov then "addr_native_to_app((uintptr_t)".toList else []) ++ callee ++ "(".toList ++ argsText args ++
        (if addrcov then ")".toList else []) ++ ");\n".toList
  | .return_ => "  return ret;\n".toList

def GlueCode.text (code : GlueCode) : Text :=
  (if code.noreturn then "void glue_".toList else "uintptr_t glue_".toList) ++ code.name ++
    "(wasm_exec_env_t env".toList ++ code.parms.flatMap (fun n => (Parm.parm n).declaration) ++
    ")\n\x7b\n  wasm_module_inst_t module_inst = get_module_inst(env);\n  uintptr_t ret;\n".toList ++
    (if code.addrApp then "  void *addr_app = addr_app_to_native((uintptr_t)NULL);\n".toList else []) ++
    code.body.flatMap Stmt.text ++ "\x7d\n\n".toList

/-! ## Runs -/

variable (W : Wamr) (env : Addr)

/-- A call of a native function, each argument with the type it is cast to. -/
structure NativeCall where
  callee : Text
  args : List (Text × UInt32)
  deriving DecidableEq, Repr

/-- The parameters and `ret`, and the call that was made. -/
structure Frame where
  parms : Nat → Option UInt32
  ret : Option UInt32
  call : Option NativeCall

/-- One statement; none where it names a variable that is not declared. -/
def runStmt (native : NativeCall → UInt32) (addrApp : Option Addr) (f : Frame) : Stmt → Option Frame
  | .nullCheck n =>
    addrApp.bind fun a => (f.parms n).map fun w =>
      if w = a then { f with parms := Function.update f.parms n (some null) } else f
  | .call assign addrcov callee args =>
    (args.mapM fun arg => (f.parms arg.2).map (arg.1, ·)).map fun values =>
      let r := native ⟨callee, values⟩
      { f with
        call := some ⟨callee, values⟩
        ret := if assign then some (if addrcov then translate W env false r else r) else f.ret }
  | .return_ => some f

/-- The parameters of a C call. -/
def bindParms : List Nat → List UInt32 → Nat → Option UInt32
  | p :: ps, w :: ws => Function.update (bindParms ps ws) p (some w)
  | _, _ => fun _ => none

/-- A call of the glue function: the native call it makes, and its result unless it is void. -/
def GlueCode.run (native : NativeCall → UInt32) (code : GlueCode) (args : List UInt32) :
    Option (NativeCall × Option UInt32) :=
  if code.parms.length = args.length then
    let addrApp := if code.addrApp then some (translate W env true null) else none
    (code.body.foldlM (runStmt W env native addrApp) ⟨bindParms code.parms args, none, none⟩).bind fun f =>
      f.call.map fun call => (call, if code.noreturn then none else f.ret)
  else none

/-- The letters for which WAMR translates an argument. -/
def isPointerLetter (l : Char) : Bool := l == '*' || l == '$'

/-- What WAMR passes for the arguments of a wasm call, given the signature of the symbol. -/
def nativeArgs (signature : Text) (ws : List UInt32) : List UInt32 :=
  List.zipWith (fun l w => if isPointerLetter l then translate W env true w else w) signature ws

/-! ## The program of a row -/

/-- A row of fixed arity whose arguments and result are words: it has no `...` and no `void` among its columns and is
none of the formatting functions. -/
structure FixedWords (row : Row) : Prop where
  findex : findex row = 0
  void : ∀ arg ∈ row.parms, arg ≠ void
  dots : ∀ arg ∈ row.parms, contains dots arg = false
  words : ∀ arg ∈ row.parms, wideParm arg = false
  result : wideReturn row.rettype = false

/-- The columns with the numbers of their parameters. -/
def columns (args : List Text) : List (Text × Nat) := args.zipIdx 1

def glueCode (row : Row) (vp : Text) : GlueCode where
  name := row.name
  noreturn := noreturn row.rettype
  parms := (columns row.parms).map Prod.snd
  addrApp := isAddr false row.parms
  body :=
    (if isAddr false row.parms then
      ((columns row.parms).filter fun col => contains star col.1).map fun col => .nullCheck col.2
    else []) ++
      .call (!noreturn row.rettype) (contains star row.rettype) (vp ++ row.name)
          ((columns row.parms).map fun col => (castType col.1, col.2)) ::
        if noreturn row.rettype then [] else [.return_]

/-! ## The text of the program -/

variable {row : Row}

theorem ne_dots {arg : Text} (h : contains dots arg = false) : arg ≠ dots := by
  rintro rfl
  exact absurd h (by decide)

theorem declareParms_append (k : Nat) {args : List Text} (rest : List Text) (hvoid : ∀ arg ∈ args, arg ≠ void)
    (hdots : ∀ arg ∈ args, contains dots arg = false) : declareParms 0 (parm1Index + k) (args ++ rest) =
      ((args.zipIdx (k + 1)).map fun col => .parm col.2) ++ declareParms 0 (parm1Index + k + args.length) rest := by
  induction args generalizing k with
  | nil => rfl
  | cons arg args ih =>
    rw [List.forall_mem_cons] at hvoid hdots
    have hnumber : parm1Index + k - parm1Index + 1 = k + 1 := by omega
    have hrest : parm1Index + k + (args.length + 1) = parm1Index + (k + 1) + args.length := by omega
    rw [List.cons_append, declareParms, if_neg (by simp only [parm1Index]; omega), if_neg (ne_dots hdots.1),
      if_neg (by simp), if_neg hvoid.1, hnumber, List.length_cons, hrest, List.zipIdx_cons, List.map_cons]
    exact congrArg (_ :: ·) (ih (k + 1) hvoid.2 hdots.2)

theorem addrChecks_eq (k : Nat) (args : List Text) : addrChecks (parm1Index + k) args =
    (((args.zipIdx (k + 1)).filter fun col => contains star col.1).map fun col =>
      Stmt.nullCheck col.2).flatMap Stmt.text := by
  induction args generalizing k with
  | nil => rfl
  | cons arg args ih =>
    have hnumber : parm1Index + k - parm1Index + 1 = k + 1 := by omega
    have hrest : parm1Index + k + 1 = parm1Index + (k + 1) := by omega
    rw [addrChecks, hnumber, hrest, ih, List.zipIdx_cons, List.filter_cons]
    cases contains star arg <;> rfl

/-- The arguments behind the first are written with commas in front. -/
theorem callArgs_tail (name : Text) (k : Nat) {args : List Text} (rest : List Text) (hvoid : ∀ arg ∈ args, arg ≠ void)
    (hdots : ∀ arg ∈ args, contains dots arg = false) : callArgs name 0 (parm1Index + (k + 1)) (args ++ rest) =
      (((args.zipIdx (k + 2)).map fun col => (castType col.1, col.2)).flatMap fun arg => ", ".toList ++ argText arg) ++
        callArgs name 0 (parm1Index + (k + 1) + args.length) rest := by
  induction args generalizing k with
  | nil => rfl
  | cons arg args ih =>
    rw [List.forall_mem_cons] at hvoid hdots
    have hnumber : parm1Index + (k + 1) - parm1Index + 1 = k + 2 := by omega
    have hrest : parm1Index + (k + 1) + (args.length + 1) = parm1Index + (k + 1 + 1) + args.length := by omega
    rw [List.cons_append, callArgs, if_pos (by omega), if_neg (ne_dots hdots.1), if_neg (by simp), if_neg hvoid.1,
      if_neg (by simp only [parm1Index]; omega), hnumber, show parm1Index + (k + 1) + 1 = parm1Index + (k + 1 + 1) by omega,
      ih (k + 1) hvoid.2 hdots.2, List.length_cons, hrest, List.zipIdx_cons, List.map_cons, List.flatMap_cons]
    simp only [argText, List.append_assoc]

theorem callArgs_append (name : Text) {args : List Text} (rest : List Text) (hvoid : ∀ arg ∈ args, arg ≠ void)
    (hdots : ∀ arg ∈ args, contains dots arg = false) : callArgs name 0 parm1Index (args ++ rest) =
      argsText ((columns args).map fun col => (castType col.1, col.2)) ++
        callArgs name 0 (parm1Index + args.length) rest := by
  cases args with
  | nil => rfl
  | cons arg args =>
    rw [List.forall_mem_cons] at hvoid hdots
    have hrest : parm1Index + (args.length + 1) = parm1Index + (0 + 1) + args.length := by omega
    rw [List.cons_append, callArgs, if_neg (by omega), if_neg (ne_dots hdots.1), if_neg (by simp), if_neg hvoid.1,
      if_neg (by simp [parm1Index]), show parm1Index + 1 = parm1Index + (0 + 1) by omega,
      callArgs_tail name 0 rest hvoid.2 hdots.2, List.length_cons, hrest, columns, List.zipIdx_cons, List.map_cons,
      argsText]
    simp only [argText, List.append_assoc]
    rfl

theorem callArgs_fixed (name : Text) {args : List Text} (hvoid : ∀ arg ∈ args, arg ≠ void)
    (hdots : ∀ arg ∈ args, contains dots arg = false) :
    callArgs name 0 parm1Index args = argsText ((columns args).map fun col => (castType col.1, col.2)) := by
  have happend := callArgs_append name [] hvoid hdots
  rwa [List.append_nil, callArgs, List.append_nil] at happend

theorem declared_fixed (h : FixedWords row) :
    row.declared.flatMap Parm.declaration =
      ((columns row.parms).map Prod.snd).flatMap fun n => (Parm.parm n).declaration := by
  have hparms := declareParms_append 0 [] h.void h.dots
  rw [List.append_nil, declareParms, List.append_nil] at hparms
  rw [Row.declared, h.findex, show declareParms 0 parm1Index row.parms = _ from hparms, List.flatMap_map,
    List.flatMap_map]
  rfl

theorem text_call (assign addrcov : Bool) (callee : Text) (args : List (Text × Nat)) :
    (Stmt.call assign addrcov callee args).text =
      (if assign then "  ret = ".toList else "  ".toList) ++
        (if addrcov then "addr_native_to_app((uintptr_t)".toList else []) ++ callee ++ "(".toList ++ argsText args ++
          (if addrcov then ")".toList else []) ++ ");\n".toList := rfl

theorem text_return : Stmt.return_.text = "  return ret;\n".toList := rfl

/-- The text that the generator writes is that of the program. -/
theorem glueCode_text (h : FixedWords row) (vp : Text) : functionText row vp = (glueCode row vp).text := by
  have hcov : "addr_native_to_app((uintptr_t)".toList ≠ [] := by decide
  have hchecks : addrChecks parm1Index row.parms = (((columns row.parms).filter fun col => contains star col.1).map
      fun col => Stmt.nullCheck col.2).flatMap Stmt.text := addrChecks_eq 0 row.parms
  delta functionText GlueCode.text glueCode
  dsimp only
  rw [declared_fixed h, h.findex, callArgs_fixed row.name h.void h.dots, hchecks]
  cases isAddr false row.parms <;> cases noreturn row.rettype <;> cases contains star row.rettype <;>
    simp only [Bool.false_eq_true, ↓reduceIte, hcov, List.flatMap_append, List.flatMap_cons, List.flatMap_nil,
      text_call, text_return, Bool.not_true, Bool.not_false, List.append_assoc, List.nil_append, List.append_nil]

/-! ## The run of the program -/

variable {W env}

/-- What the comparisons make of a parameter. -/
def checked (W : Wamr) (env : Addr) (row : Row) (arg : Text) (w : UInt32) : UInt32 :=
  if isAddr false row.parms = true ∧ contains star arg = true ∧ w = translate W env true null then null else w

theorem bindParms_range (k : Nat) (ws : List UInt32) (n : Nat) (args : List Text) (h : args.length = ws.length) :
    bindParms ((args.zipIdx k).map Prod.snd) ws (k + n) = ws[n]? := by
  induction args generalizing k n ws with
  | nil =>
    rw [List.eq_nil_of_length_eq_zero h.symm]
    rfl
  | cons arg args ih =>
    cases ws with
    | nil => cases h
    | cons w ws =>
      rw [List.zipIdx_cons, List.map_cons, bindParms]
      cases n with
      | zero => exact Function.update_self _ _ _
      | succ n =>
        rw [Function.update_of_ne (by omega), show k + (n + 1) = k + 1 + n by omega, ih _ _ _ (Nat.succ.inj h)]
        rfl

/-- A comparison sets its parameter to null where it is `addr_app`. -/
theorem run_nullCheck {native : NativeCall → UInt32} (a : Addr) {n : Nat} {f : Frame} (h : (f.parms n).isSome) :
    runStmt W env native (some a) f (.nullCheck n) =
      some { f with parms := fun m => (f.parms m).map fun w => if m = n ∧ w = a then null else w } := by
  obtain ⟨w, hw⟩ := Option.isSome_iff_exists.1 h
  rw [runStmt, Option.bind_some, hw, Option.map_some, Option.some_inj]
  by_cases ha : w = a
  · rw [if_pos ha]
    refine congrArg (fun parms => ({ f with parms } : Frame)) (funext fun m => ?_)
    by_cases hm : m = n
    · subst hm
      simp [hw, ha]
    · simp [hm]
  · rw [if_neg ha]
    refine congrArg (fun parms => ({ f with parms } : Frame)) (funext fun m => ?_)
    by_cases hm : m = n
    · subst hm
      simp [hw, ha]
    · simp [hm]

theorem run_nullChecks {native : NativeCall → UInt32} (a : Addr) (ns : List Nat) {f : Frame}
    (h : ∀ n ∈ ns, (f.parms n).isSome) :
    (ns.map Stmt.nullCheck).foldlM (runStmt W env native (some a)) f =
      some { f with parms := fun m => (f.parms m).map fun w => if m ∈ ns ∧ w = a then null else w } := by
  induction ns generalizing f with
  | nil => simp
  | cons n ns ih =>
    rw [List.forall_mem_cons] at h
    rw [List.map_cons, List.foldlM_cons, run_nullCheck a h.1]
    refine (ih fun m hm => by simpa using h.2 m hm).trans ?_
    simp only [Option.some_inj, Frame.mk.injEq, and_true]
    funext m
    rw [Option.map_map]
    refine congrArg (fun g => (f.parms m).map g) (funext fun w => ?_)
    simp only [Function.comp, List.mem_cons]
    by_cases hm : m = n <;> by_cases hw : w = a <;> simp [hm, hw]

/-- The arguments of the call. -/
theorem args_eq {parms : Nat → Option UInt32} (k : Nat) {args : List Text} {ws : List UInt32}
    (hlength : args.length = ws.length) (hparms : ∀ n w, ws[n]? = some w → parms (k + n) = some w) :
    ((args.zipIdx k).map fun col => (castType col.1, col.2)).mapM (fun arg => (parms arg.2).map (arg.1, ·)) =
      some (List.zipWith (fun arg w => (castType arg, w)) args ws) := by
  induction args generalizing k ws with
  | nil => simp
  | cons arg args ih =>
    cases ws with
    | nil => cases hlength
    | cons w ws =>
      have hrest := ih (k + 1) (Nat.succ.inj hlength) fun n w' hw =>
        (congrArg parms (by omega)).trans (hparms (n + 1) w' hw)
      rw [List.zipIdx_cons, List.map_cons, List.mapM_cons, hrest, show parms k = some w from hparms 0 w rfl]
      rfl

/-- What the function returns when the native one returns `r`. -/
def returned (W : Wamr) (env : Addr) (row : Row) (r : UInt32) : Option UInt32 :=
  if noreturn row.rettype then none
  else some (if contains star row.rettype then translate W env false r else r)

/-- The call with the columns' types and the given arguments. -/
def nativeCall (row : Row) (vp : Text) (values : List UInt32) : NativeCall :=
  ⟨vp ++ row.name, List.zipWith (fun arg w => (castType arg, w)) row.parms values⟩

/-- The call behind the comparisons. -/
theorem run_call {native : NativeCall → UInt32} {addrApp : Option Addr} (vp : Text) {f : Frame} {values : List UInt32}
    (hlength : row.parms.length = values.length) (hparms : ∀ n w, values[n]? = some w → f.parms (1 + n) = some w) :
    ((Stmt.call (!noreturn row.rettype) (contains star row.rettype) (vp ++ row.name)
        ((columns row.parms).map fun col => (castType col.1, col.2)) ::
      if noreturn row.rettype then [] else [.return_]).foldlM (runStmt W env native addrApp) f).bind (fun f =>
        f.call.map fun call => (call, if noreturn row.rettype then none else f.ret)) =
      some (nativeCall row vp values, returned W env row (native (nativeCall row vp values))) := by
  rw [List.foldlM_cons, runStmt, columns, args_eq 1 hlength hparms, Option.map_some]
  cases hret : noreturn row.rettype <;> simp [runStmt, nativeCall, returned, hret]

/-- The parameters that the program compares. -/
def comparedParms (args : List Text) : List Nat :=
  ((columns args).filter fun col => contains star col.1).map Prod.snd

theorem mem_comparedParms {args : List Text} {n : Nat} {arg : Text} (h : args[n]? = some arg) :
    1 + n ∈ comparedParms args ↔ contains star arg = true := by
  simp only [comparedParms, List.mem_map, List.mem_filter, columns]
  constructor
  · rintro ⟨⟨arg', m⟩, ⟨hm, hstar⟩, rfl⟩
    rw [List.mk_add_mem_zipIdx_iff_getElem?, h] at hm
    cases hm
    exact hstar
  · intro hstar
    exact ⟨(arg, 1 + n), ⟨List.mk_add_mem_zipIdx_iff_getElem?.2 h, hstar⟩, rfl⟩

theorem isSome_of_comparedParms {args : List Text} {ws : List UInt32} (h : args.length = ws.length) {m : Nat}
    (hm : m ∈ comparedParms args) : (bindParms ((columns args).map Prod.snd) ws m).isSome := by
  obtain ⟨⟨arg, m⟩, hcol, rfl⟩ := List.mem_map.1 hm
  obtain ⟨hle, harg⟩ := List.mk_mem_zipIdx_iff_le_and_getElem?_sub.1 (List.mem_filter.1 hcol).1
  obtain ⟨n, rfl⟩ := Nat.exists_eq_add_of_le hle
  rw [Nat.add_sub_cancel_left] at harg
  simp only [columns]
  rw [bindParms_range 1 ws n args h, List.getElem?_eq_getElem (h ▸ (List.getElem?_eq_some_iff.1 harg).1)]
  rfl

/-- A call of the glue function calls the native function once, with the arguments behind the comparisons. -/
theorem run_glueCode (W : Wamr) (env : Addr) (native : NativeCall → UInt32) (row : Row) (vp : Text) {ws : List UInt32}
    (h : row.parms.length = ws.length) :
    let call := nativeCall row vp (List.zipWith (checked W env row) row.parms ws)
    (glueCode row vp).run W env native ws = some (call, returned W env row (native call)) := by
  intro call
  have hlength : (glueCode row vp).parms.length = ws.length := by simp [glueCode, columns, h]
  have hvalues : row.parms.length = (List.zipWith (checked W env row) row.parms ws).length := by
    rw [List.length_zipWith, ← h, Nat.min_self]
  have hbind : ∀ n, bindParms ((columns row.parms).map Prod.snd) ws (1 + n) = ws[n]? := fun n =>
    bindParms_range 1 ws n row.parms h
  rw [GlueCode.run, if_pos hlength]
  simp only [glueCode]
  rw [List.foldlM_append]
  by_cases ha : isAddr false row.parms = true
  · have hchecks : ((columns row.parms).filter fun col => contains star col.1).map (fun col => Stmt.nullCheck col.2) =
        (comparedParms row.parms).map Stmt.nullCheck := by rw [comparedParms, List.map_map]; rfl
    simp only [ha, ↓reduceIte]
    rw [hchecks, run_nullChecks _ _ fun m hm => isSome_of_comparedParms h hm]
    refine run_call vp hvalues fun n w hw => ?_
    obtain ⟨arg, v, harg, hv, rfl⟩ := List.getElem?_zipWith_eq_some.1 hw
    simp only [hbind, hv, Option.map_some, mem_comparedParms harg, checked, ha, true_and]
  · -- no parameter is compared
    simp only [ha, Bool.false_eq_true, ↓reduceIte]
    refine run_call vp hvalues fun n w hw => ?_
    obtain ⟨arg, v, -, hv, rfl⟩ := List.getElem?_zipWith_eq_some.1 hw
    simp only [hbind, hv, checked, ha, Bool.false_eq_true, false_and, ↓reduceIte]

/-! ## The call through the table -/

/-- A call from wasm: WAMR calls the glue function with the arguments it makes of those of the wasm call. -/
def callSymbol (W : Wamr) (env : Addr) (native : NativeCall → UInt32) (row : Row) (vp : Text) (ws : List UInt32) :
    Option (NativeCall × Option UInt32) :=
  (glueCode row vp).run W env native (nativeArgs W env (signature row.parms) ws)

/-- What the native function is to get for an argument: the native address of a pointer, where null stays null. -/
def conveyed (W : Wamr) (env : Addr) (arg : Text) (w : UInt32) : UInt32 :=
  if contains star arg then if w = null then null else translate W env true w else w

/-- In every module instance, in which WAMR translates distinct addresses to distinct ones, the native function gets
what a wasm call passes, and the call returns what it does. -/
def Conveys (row : Row) (vp : Text) : Prop :=
  ∀ (W : Wamr) (env : Addr) (native : NativeCall → UInt32) (ws : List UInt32),
    Function.Injective (translate W env true) → row.parms.length = ws.length →
      let call := nativeCall row vp (List.zipWith (conveyed W env) row.parms ws)
      callSymbol W env native row vp ws = some (call, returned W env row (native call))

/-- WAMR translates the columns with a `*` and no others, and the function compares them if there are any. -/
structure PointersTranslated (row : Row) : Prop where
  letters : ∀ arg ∈ row.parms, contains star arg = isPointerLetter (letter arg)
  compared : ∀ arg ∈ row.parms, contains star arg = true → isAddr false row.parms = true

theorem signature_fixed {args : List Text} (h : ∀ arg ∈ args, contains dots arg = false) :
    signature args = args.map letter := by
  rw [signature_eq]
  congr 1
  induction args with
  | nil => rfl
  | cons arg args ih =>
    rw [List.forall_mem_cons] at h
    have hends : endsSignature arg = false := by rw [endsSignature, h.1, Bool.and_false]
    rw [upTo, hends, if_neg Bool.false_ne_true, ih h.2]

/-- What the native function gets in the place of an argument. -/
def received (W : Wamr) (env : Addr) (row : Row) (arg : Text) (w : UInt32) : UInt32 :=
  checked W env row arg (if isPointerLetter (letter arg) then translate W env true w else w)

theorem received_of_pointer {env : Addr} {arg : Text} {w : UInt32} (h : isPointerLetter (letter arg) = true) :
    received W env row arg w = checked W env row arg (translate W env true w) := by
  rw [received, h, if_pos rfl]

theorem received_of_value {env : Addr} {arg : Text} {w : UInt32} (h : isPointerLetter (letter arg) = false) :
    received W env row arg w = checked W env row arg w := by
  rw [received, h, if_neg Bool.false_ne_true]

/-- The comparison leaves a null or the argument. -/
theorem checked_cases (W : Wamr) (env : Addr) (row : Row) (arg : Text) (w : UInt32) :
    checked W env row arg w = null ∨ checked W env row arg w = w := by
  rw [checked]
  exact ite_eq_or_eq _ _ _

theorem callSymbol_eq (h : FixedWords row) (W : Wamr) (env : Addr) (native : NativeCall → UInt32) (vp : Text)
    {ws : List UInt32} (hlength : row.parms.length = ws.length) :
    let call := nativeCall row vp (List.zipWith (received W env row) row.parms ws)
    callSymbol W env native row vp ws = some (call, returned W env row (native call)) := by
  have hargs : nativeArgs W env (signature row.parms) ws =
      List.zipWith (fun arg w => if isPointerLetter (letter arg) then translate W env true w else w) row.parms ws := by
    rw [signature_fixed h.dots, nativeArgs, List.zipWith_map_left]
  have hreceived : List.zipWith (received W env row) row.parms ws =
      List.zipWith (checked W env row) row.parms (nativeArgs W env (signature row.parms) ws) := by
    rw [hargs]
    refine List.ext_getElem? fun n => ?_
    simp only [List.getElem?_zipWith]
    cases row.parms[n]? <;> cases ws[n]? <;> rfl
  simp only [callSymbol, hreceived]
  exact run_glueCode W env native row vp (by rw [hargs, List.length_zipWith, ← hlength, Nat.min_self])

/-- A pointer that is translated and compared arrives as its native address, with null as null. -/
theorem checked_eq_conveyed {arg : Text} {l : Char} (hl : contains star arg = isPointerLetter l)
    (hcompared : contains star arg = true → isAddr false row.parms = true)
    (hinj : Function.Injective (translate W env true)) (w : UInt32) :
    checked W env row arg (if isPointerLetter l then translate W env true w else w) = conveyed W env arg w := by
  rw [checked, conveyed, ← hl]
  cases hstar : contains star arg with
  | false => simp
  | true => simp only [hcompared hstar, true_and, if_true, hinj.eq_iff]

theorem received_eq (h : PointersTranslated row) {arg : Text} (harg : arg ∈ row.parms)
    (hinj : Function.Injective (translate W env true)) (w : UInt32) :
    received W env row arg w = conveyed W env arg w :=
  checked_eq_conveyed (h.letters arg harg) (h.compared arg harg) hinj w

/-- Where the two disagree, a call with the same word for every argument shows it. -/
theorem received_of_conveys (h : FixedWords row) {vp : Text} (hc : Conveys row vp) {arg : Text} (harg : arg ∈ row.parms)
    (hinj : Function.Injective (translate W env true)) (w : UInt32) :
    received W env row arg w = conveyed W env arg w := by
  obtain ⟨n, hn⟩ := List.mem_iff_getElem?.1 harg
  have hlength : row.parms.length = (List.replicate row.parms.length w).length := List.length_replicate.symm
  have hcall := hc W env (fun _ => 0) _ hinj hlength
  simp only [callSymbol_eq h W env (fun _ => 0) vp hlength, Option.some_inj, Prod.mk.injEq, nativeCall,
    NativeCall.mk.injEq, true_and] at hcall
  have hlt := (List.getElem?_eq_some_iff.1 hn).1
  have hnth := congrArg (fun l : List (Text × UInt32) => l[n]?) hcall.1
  simp only [List.getElem?_zipWith, hn, List.getElem?_replicate, hlt, if_true] at hnth
  exact (Prod.mk.inj (Option.some.inj hnth)).2

/-- In a memory that starts at one, where null arrives as one and one as two, a letter that is not the column's shows. -/
theorem letters_of_conveys (h : FixedWords row) {vp : Text} (hc : Conveys row vp) :
    ∀ arg ∈ row.parms, contains star arg = isPointerLetter (letter arg) := by
  intro arg harg
  have hw := received_of_conveys h hc harg (Wamr.linear_leftInverse id (fun _ => 1) null).injective 1
  cases hstar : contains star arg <;> cases hl : isPointerLetter (letter arg)
  · rfl
  · rw [received_of_pointer hl, checked, conveyed, hstar, if_neg fun h => Bool.false_ne_true h.2.1,
      if_neg Bool.false_ne_true] at hw
    exact absurd hw (by decide)
  · have hconveyed : conveyed (Wamr.linear id fun _ => 1) null arg 1 = 2 := by
      rw [conveyed, hstar, if_pos rfl, if_neg (by decide)]
      rfl
    rw [hconveyed, received_of_value hl] at hw
    obtain hchecked | hchecked := checked_cases (Wamr.linear id fun _ => 1) null row arg 1
    · exact absurd (hchecked.symm.trans hw) (by decide)
    · exact absurd (hchecked.symm.trans hw) (by decide)
  · rfl

theorem pointersTranslated_of_conveys (h : FixedWords row) {vp : Text} (hc : Conveys row vp) :
    PointersTranslated row := by
  have hletters := letters_of_conveys h hc
  refine ⟨hletters, fun arg harg hstar => ?_⟩
  have hw := received_of_conveys h hc harg (Wamr.linear_leftInverse id (fun _ => 1) null).injective null
  by_contra ha
  rw [received_of_pointer ((hletters arg harg).symm.trans hstar), checked, if_neg fun h => ha h.1, conveyed, hstar,
    if_pos rfl, if_pos rfl] at hw
  exact absurd hw (by decide)

theorem conveys_of_pointersTranslated (h : FixedWords row) (hp : PointersTranslated row) (vp : Text) :
    Conveys row vp := by
  intro W env native ws hinj hlength
  have hvalues : List.zipWith (conveyed W env) row.parms ws = List.zipWith (received W env row) row.parms ws := by
    refine List.ext_getElem? fun n => ?_
    simp only [List.getElem?_zipWith]
    cases harg : row.parms[n]? with
    | none => rfl
    | some arg =>
      cases ws[n]? with
      | none => rfl
      | some w => exact congrArg some (received_eq hp (List.mem_of_getElem? harg) hinj w).symm
  simp only [hvalues]
  exact callSymbol_eq h W env native vp hlength

/-- The generated function of a row of words conveys its arguments exactly when WAMR translates the columns with a `*`
and no others, and the function compares them. -/
theorem conveys_iff (h : FixedWords row) (vp : Text) : Conveys row vp ↔ PointersTranslated row := by
  constructor
  · exact pointersTranslated_of_conveys h
  · exact fun hp => conveys_of_pointersTranslated h hp vp

def strncpyRow : Row :=
  ⟨"strncpy".toList, "string.h".toList, [], "FAR char *".toList,
    ["FAR char *".toList, "FAR const char *".toList, "size_t".toList]⟩

theorem conveys_strncpy : Conveys strncpyRow [] :=
  (@conveys_iff strncpyRow (by constructor <;> decide) []).2 (by constructor <;> decide)

end VelaWasm.Tools
