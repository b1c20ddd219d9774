/-
What a generated glue function of a formatting row does: it lets `va_list_string2conv` walk the argument area before and
after it calls the native `v` function. Run with the arguments that WAMR passes, it gives the native function the
arguments of the wasm call, and each word of the area that the walk takes for a string as a native address; these are the
words with the strings when the format is in phase, and no others. It compares no parameter with `addr_app`, so a null
pointer in front of the format arrives as the base of the linear memory.
-/
import VelaWasm.LibcBypass.Forwarding
import VelaWasm.Tools.GlueMeaning

namespace VelaWasm.Tools

open VelaWasm.InPlace VelaWasm.LibcBypass

/-! ## Programs -/

/-- An argument of the native function: a parameter, cast to a type unless it is `ap`. -/
structure GlueArg where
  cast : Option Text
  parm : Parm
  deriving DecidableEq, Repr

/-- A statement of the glue function of a formatting row. -/
inductive FormatStmt where
  /-- `va_list_string2native(env, format, ap);` and `va_list_string2app(env, format, ap);` -/
  | string2conv (toNative : Bool)
  /-- the call of the native function, its result assigned to `ret` and translated -/
  | call (assign addrcov : Bool) (callee : Text) (args : List GlueArg)
  | return_

structure FormatCode where
  name : Text
  noreturn : Bool
  parms : List Parm
  body : List FormatStmt

def Parm.name : Parm → Text
  | .format => "format".toList
  | .ap => "ap".toList
  | .parm n => parmName n

def GlueArg.text (arg : GlueArg) : Text :=
  match arg.cast with
  | none => arg.parm.name
  | some type => "(".toList ++ type ++ ")".toList ++ arg.parm.name

def glueArgsText : List GlueArg → Text
  | [] => []
  | arg :: args => arg.text ++ args.flatMap fun arg => ", ".toList ++ arg.text

def FormatStmt.text : FormatStmt → Text
  | .string2conv true => "  va_list_string2native(env, format, ap);\n".toList
  | .string2conv false => "  va_list_string2app(env, format, ap);\n".toList
  | .call assign addrcov callee args =>
    (if assign then "  ret = ".toList else "  ".toList) ++
      (if addrcov then "addr_native_to_app((uintptr_t)".toList else []) ++ callee ++ "(".toList ++ glueArgsText args ++
        (if addrcov then ")".toList else []) ++ ");\n".toList
  | .return_ => "  return ret;\n".toList

def FormatCode.text (code : FormatCode) : Text :=
  (if code.noreturn then "void glue_".toList else "uintptr_t glue_".toList) ++ code.name ++
    "(wasm_exec_env_t env".toList ++ code.parms.flatMap Parm.declaration ++
    ")\n\x7b\n  wasm_module_inst_t module_inst = get_module_inst(env);\n  uintptr_t ret;\n".toList ++
    code.body.flatMap FormatStmt.text ++ "\x7d\n\n".toList

/-! ## Runs -/

variable (W : Wamr) (env : Addr)

/-- A native function that reads and writes memory. -/
abbrev VaCallee := NativeCall → Mem → UInt32 × Mem

/-- The parameters, `ret`, the memory, and the call that was made with the memory that it was made on. -/
structure FormatFrame where
  parms : Parm → Option UInt32
  ret : Option UInt32
  mem : Mem
  call : Option (NativeCall × Mem)

/-- One statement; none where it names a parameter that is not declared. -/
def runFormatStmt (native : VaCallee) (f : FormatFrame) : FormatStmt → Option FormatFrame
  | .string2conv toNative =>
    (f.parms .format).bind fun format => (f.parms .ap).map fun ap =>
      { f with mem := (vaListString2conv W env toNative (formatAt f.mem format) ap f.mem).1 }
  | .call assign addrcov callee args =>
    (args.mapM fun arg => (f.parms arg.parm).map (arg.cast.getD vaList, ·)).map fun values =>
      let (r, mem) := native ⟨callee, values⟩ f.mem
      { f with
        call := some (⟨callee, values⟩, f.mem)
        ret := if assign then some (if addrcov then translate W env false r else r) else f.ret
        mem }
  | .return_ => some f

/-- The parameters of a C call. -/
def bindParm : List Parm → List UInt32 → Parm → Option UInt32
  | p :: ps, w :: ws => Function.update (bindParm ps ws) p (some w)
  | _, _ => fun _ => none

/-- What a call of the glue function does. -/
structure FormatRun where
  /-- the native call and the memory that it is made on -/
  call : NativeCall × Mem
  /-- the result, unless the function is void -/
  ret : Option UInt32
  mem : Mem

def FormatCode.run (native : VaCallee) (code : FormatCode) (args : List UInt32) (m : Mem) : Option FormatRun :=
  if code.parms.length = args.length then
    (code.body.foldlM (runFormatStmt W env native) ⟨bindParm code.parms args, none, m, none⟩).bind fun f =>
      f.call.map fun call => ⟨call, if code.noreturn then none else f.ret, f.mem⟩
  else none

/-! ## The program of a row -/

/-- A row of a formatting function: words, the format and `...` or a `va_list`. -/
structure Formatting (row : Row) (fixed : List Text) (format : Text) : Prop where
  parms : row.parms = fixed ++ [format, dots] ∨ row.parms = fixed ++ [format, vaList]
  family : isVaAdditionalFunction row.name = true ∨ isVaListFunction row.name = true
  scanf : contains "scanf".toList row.name = false
  void : ∀ arg ∈ fixed, arg ≠ void
  vaList : ∀ arg ∈ fixed, arg ≠ vaList
  dots : ∀ arg ∈ fixed ++ [format], contains dots arg = false
  formatType : format ≠ Tools.void ∧ format ≠ Tools.vaList
  words : ∀ arg ∈ fixed, wideParm arg = false
  result : wideReturn row.rettype = false

/-- The arguments of the native function, the first of them the parameter `k`. -/
def formatArgs (k : Nat) (fixed : List Text) (format : Text) : List GlueArg :=
  (fixed.zipIdx k).map (fun col => ⟨some (castType col.1), .parm col.2⟩) ++
    [⟨some (castType format), .format⟩, ⟨none, .ap⟩]

def formatCode (row : Row) (vp : Text) (fixed : List Text) (format : Text) : FormatCode where
  name := row.name
  noreturn := noreturn row.rettype
  parms := (columns fixed).map (fun col => .parm col.2) ++ [.format, .ap]
  body :=
    .string2conv true :: .call (!noreturn row.rettype) (contains star row.rettype) (vp ++ row.name)
        (formatArgs 1 fixed format) ::
      .string2conv false :: if noreturn row.rettype then [] else [.return_]

/-! ## The text of the program -/

variable {row : Row} {fixed : List Text} {format : Text}

theorem Formatting.findex_eq (h : Formatting row fixed format) : findex row = parm1Index + fixed.length := by
  have hlength : row.length - 2 = parm1Index + fixed.length := by
    rcases h.parms with hp | hp <;> simp only [Row.length, hp, List.length_append, List.length_cons, List.length_nil] <;>
      omega
  rcases h.family with hf | hf <;> simp [findex, hf, hlength]

theorem Formatting.findex_ne_zero (h : Formatting row fixed format) : findex row ≠ 0 := by
  rw [h.findex_eq, parm1Index]
  omega

/-- The last column. -/
theorem Formatting.exists_last (h : Formatting row fixed format) :
    ∃ last, row.parms = fixed ++ [format, last] ∧ (last = Tools.dots ∨ last = Tools.vaList) := by
  rcases h.parms with hp | hp
  · exact ⟨_, hp, .inl rfl⟩
  · exact ⟨_, hp, .inr rfl⟩

/-- The column of the area resets `is_addr`. -/
theorem isAddr_last {last : Text} (hlast : last = dots ∨ last = vaList) (acc : Bool) (args rest : List Text) :
    isAddr acc (args ++ last :: rest) = false := by
  induction args generalizing acc with
  | nil => rcases hlast with rfl | rfl <;> rfl
  | cons arg args ih =>
    rw [List.cons_append, isAddr]
    split_ifs
    · exact ih true
    · rfl
    · exact ih acc

theorem Formatting.isAddr_eq (h : Formatting row fixed format) : isAddr false row.parms = false := by
  obtain ⟨last, hparms, hlast⟩ := h.exists_last
  rw [hparms, show fixed ++ [format, last] = (fixed ++ [format]) ++ [last] by simp]
  exact isAddr_last hlast false _ []

theorem declareParms_format (k : Nat) {fixed : List Text} {last : Text} (hlast : last = dots ∨ last = vaList)
    (hvoid : ∀ arg ∈ fixed, arg ≠ void) (hva : ∀ arg ∈ fixed, arg ≠ vaList)
    (hdots : ∀ arg ∈ fixed, contains dots arg = false) :
    declareParms (parm1Index + k + fixed.length) (parm1Index + k) (fixed ++ [format, last]) =
      (fixed.zipIdx (k + 1)).map (fun col => Parm.parm col.2) ++ [.format, .ap] := by
  induction fixed generalizing k with
  | nil => rcases hlast with rfl | rfl <;> simp [declareParms, dots, vaList, parm1Index]
  | cons arg fixed ih =>
    rw [List.forall_mem_cons] at hvoid hva hdots
    have hnumber : parm1Index + k - parm1Index + 1 = k + 1 := by omega
    have hrest : parm1Index + k + (fixed.length + 1) = parm1Index + (k + 1) + fixed.length := by omega
    rw [List.cons_append, declareParms, List.length_cons, if_neg (by omega), if_neg (ne_dots hdots.1),
      if_neg fun h => hva.1 h.1, if_neg hvoid.1, hnumber, hrest, List.zipIdx_cons]
    exact congrArg (_ :: ·) (ih (k + 1) hvoid.2 hva.2 hdots.2)

/-- The arguments behind the first are written with commas in front. -/
theorem callArgs_format_tail (name : Text) (k : Nat) {fixed : List Text} {last : Text}
    (hlast : last = dots ∨ last = vaList) (hvoid : ∀ arg ∈ fixed, arg ≠ void) (hva : ∀ arg ∈ fixed, arg ≠ vaList)
    (hdots : ∀ arg ∈ fixed, contains dots arg = false) (hformat : format ≠ dots ∧ format ≠ void ∧ format ≠ vaList) :
    callArgs name (parm1Index + (k + 1) + fixed.length) (parm1Index + (k + 1)) (fixed ++ [format, last]) =
      (formatArgs (k + 2) fixed format).flatMap fun arg => ", ".toList ++ arg.text := by
  induction fixed generalizing k with
  | nil =>
    obtain ⟨hfd, hfv, hfl⟩ := hformat
    rw [List.nil_append, callArgs, if_pos (by omega), if_neg hfd, if_neg fun h => hfl h.1, if_neg hfv,
      List.length_nil, if_pos (Nat.add_zero _), callArgs, if_pos (by omega)]
    rcases hlast with rfl | rfl
    · simp [dotsArg, formatArgs, GlueArg.text, Parm.name]
    · simp [show vaList ≠ dots by decide, formatArgs, GlueArg.text, Parm.name]
  | cons arg fixed ih =>
    rw [List.forall_mem_cons] at hvoid hva hdots
    have hnumber : parm1Index + (k + 1) - parm1Index + 1 = k + 2 := by omega
    have hrest : parm1Index + (k + 1) + (fixed.length + 1) = parm1Index + (k + 1 + 1) + fixed.length := by omega
    rw [List.cons_append, callArgs, List.length_cons, if_pos (by omega), if_neg (ne_dots hdots.1),
      if_neg fun h => hva.1 h.1, if_neg hvoid.1, if_neg (by omega), hnumber, hrest,
      show parm1Index + (k + 1) + 1 = parm1Index + (k + 1 + 1) by omega, ih (k + 1) hvoid.2 hva.2 hdots.2, formatArgs,
      formatArgs, List.zipIdx_cons, List.map_cons, List.cons_append, List.flatMap_cons]
    simp only [GlueArg.text, Parm.name, parmName, List.append_assoc]
    rfl

theorem callArgs_format (name : Text) {fixed : List Text} {last : Text} (hlast : last = dots ∨ last = vaList)
    (hvoid : ∀ arg ∈ fixed, arg ≠ void) (hva : ∀ arg ∈ fixed, arg ≠ vaList)
    (hdots : ∀ arg ∈ fixed, contains dots arg = false) (hformat : format ≠ dots ∧ format ≠ void ∧ format ≠ vaList) :
    callArgs name (parm1Index + fixed.length) parm1Index (fixed ++ [format, last]) =
      glueArgsText (formatArgs 1 fixed format) := by
  cases fixed with
  | nil =>
    obtain ⟨hfd, hfv, hfl⟩ := hformat
    rw [List.nil_append, callArgs, if_neg (by omega), if_neg hfd, if_neg fun h => hfl h.1, if_neg hfv,
      List.length_nil, if_pos (Nat.add_zero _), callArgs, if_pos (by omega)]
    rcases hlast with rfl | rfl
    · simp [dotsArg, formatArgs, glueArgsText, GlueArg.text, Parm.name]
    · simp [show vaList ≠ dots by decide, parm1Index, formatArgs, glueArgsText, GlueArg.text, Parm.name]
  | cons arg fixed =>
    rw [List.forall_mem_cons] at hvoid hva hdots
    have htail := callArgs_format_tail name 0 hlast hvoid.2 hva.2 hdots.2 hformat
    have hrest : parm1Index + (fixed.length + 1) = parm1Index + (0 + 1) + fixed.length := by omega
    rw [List.cons_append, callArgs, List.length_cons, if_neg (by omega), if_neg (ne_dots hdots.1),
      if_neg fun h => hva.1 h.1, if_neg hvoid.1, if_neg (by omega), hrest, htail, formatArgs, formatArgs,
      List.zipIdx_cons, List.map_cons, List.cons_append, glueArgsText]
    simp only [GlueArg.text, Parm.name, parmName, List.append_assoc]
    rfl

theorem text_formatCall (assign addrcov : Bool) (callee : Text) (args : List GlueArg) :
    (FormatStmt.call assign addrcov callee args).text =
      (if assign then "  ret = ".toList else "  ".toList) ++
        (if addrcov then "addr_native_to_app((uintptr_t)".toList else []) ++ callee ++ "(".toList ++
          glueArgsText args ++ (if addrcov then ")".toList else []) ++ ");\n".toList := rfl

theorem text_string2native :
    (FormatStmt.string2conv true).text = "  va_list_string2native(env, format, ap);\n".toList := rfl

theorem text_string2app :
    (FormatStmt.string2conv false).text = "  va_list_string2app(env, format, ap);\n".toList := rfl

theorem text_formatReturn : FormatStmt.return_.text = "  return ret;\n".toList := rfl

theorem Formatting.declared_eq (h : Formatting row fixed format) :
    row.declared = (columns fixed).map (fun col => .parm col.2) ++ [.format, .ap] := by
  obtain ⟨last, hparms, hlast⟩ := h.exists_last
  rw [Row.declared, h.findex_eq, hparms]
  exact declareParms_format 0 hlast h.void h.vaList fun arg harg => h.dots arg (List.mem_append_left _ harg)

theorem Formatting.callArgs_eq (h : Formatting row fixed format) :
    callArgs row.name (findex row) parm1Index row.parms = glueArgsText (formatArgs 1 fixed format) := by
  obtain ⟨last, hparms, hlast⟩ := h.exists_last
  rw [h.findex_eq, hparms]
  refine callArgs_format row.name hlast h.void h.vaList (fun arg harg => h.dots arg (List.mem_append_left _ harg)) ?_
  exact ⟨ne_dots (h.dots format (by simp)), h.formatType⟩

/-- The text that the generator writes is that of the program. -/
theorem formatCode_text (h : Formatting row fixed format) (vp : Text) :
    functionText row vp = (formatCode row vp fixed format).text := by
  have hcov : "addr_native_to_app((uintptr_t)".toList ≠ [] := by decide
  delta functionText FormatCode.text formatCode
  dsimp only
  rw [h.declared_eq, h.callArgs_eq, h.isAddr_eq, h.scanf, if_neg h.findex_ne_zero, if_neg h.findex_ne_zero]
  cases noreturn row.rettype <;> cases contains star row.rettype <;>
    simp only [Bool.false_eq_true, ↓reduceIte, hcov, List.flatMap_cons, List.flatMap_nil, text_formatCall,
      text_string2native, text_string2app, text_formatReturn, Bool.not_true, Bool.not_false, List.append_assoc,
      List.append_nil]

/-! ## The run of the program -/

variable {W env}

/-- The fixed parameters and those behind them. -/
theorem bindParm_append (k : Nat) {fixed : List Text} {ws : List UInt32} (parms : List Parm) (vs : List UInt32)
    (h : fixed.length = ws.length) :
    let bound := bindParm ((fixed.zipIdx k).map (fun col => .parm col.2) ++ parms) (ws ++ vs)
    bound .format = bindParm parms vs .format ∧ bound .ap = bindParm parms vs .ap ∧
      ∀ n w, ws[n]? = some w → bound (.parm (k + n)) = some w := by
  intro bound
  induction fixed generalizing k ws with
  | nil =>
    obtain rfl := List.eq_nil_of_length_eq_zero h.symm
    exact ⟨rfl, rfl, fun n w hw => by cases hw⟩
  | cons arg fixed ih =>
    cases ws with
    | nil => cases h
    | cons v ws =>
      obtain ⟨hformat, hap, hparm⟩ := ih (k + 1) (Nat.succ.inj h)
      refine ⟨hformat, hap, fun n w hw => ?_⟩
      cases n with
      | zero =>
        cases hw
        exact Function.update_self _ _ _
      | succ n =>
        have hne : Parm.parm (k + (n + 1)) ≠ .parm k := by simp
        refine (Function.update_of_ne hne _ _).trans ?_
        rw [show k + (n + 1) = k + 1 + n by omega]
        exact hparm n w hw

theorem values_formatArgs {parms : Parm → Option UInt32} (k : Nat) {fixed : List Text} (format : Text)
    {ws : List UInt32} {fmt ap : Addr} (h : fixed.length = ws.length) (hformat : parms .format = some fmt)
    (hap : parms .ap = some ap) (hparm : ∀ n w, ws[n]? = some w → parms (.parm (k + n)) = some w) :
    (formatArgs k fixed format).mapM (fun arg => (parms arg.parm).map (arg.cast.getD vaList, ·)) =
      some (List.zipWith (fun arg w => (castType arg, w)) fixed ws ++ [(castType format, fmt), (vaList, ap)]) := by
  induction fixed generalizing k ws with
  | nil =>
    obtain rfl := List.eq_nil_of_length_eq_zero h.symm
    simp [formatArgs, hformat, hap]
  | cons arg fixed ih =>
    cases ws with
    | nil => cases h
    | cons w ws =>
      have hrest := ih (k + 1) (Nat.succ.inj h) fun n v hv =>
        (congrArg (fun i => parms (.parm i)) (by omega)).trans (hparm (n + 1) v hv)
      rw [formatArgs, List.zipIdx_cons, List.map_cons, List.cons_append, List.mapM_cons, ← formatArgs, hrest,
        show parms (.parm k) = some w from hparm 0 w rfl]
      rfl

/-- The native call of a formatting row. -/
def formatCall (row : Row) (vp : Text) (fixed : List Text) (format : Text) (values : List UInt32) (fmt ap : Addr) :
    NativeCall :=
  ⟨vp ++ row.name,
    List.zipWith (fun arg w => (castType arg, w)) fixed values ++ [(castType format, fmt), (vaList, ap)]⟩

/-- A call of the glue function calls the native function once, between the two walks. -/
theorem run_formatCode (W : Wamr) (env : Addr) (native : VaCallee) (row : Row) (vp : Text) (fixed : List Text)
    (format : Text) {ws : List UInt32} (fmt ap : Addr) (m : Mem) (h : fixed.length = ws.length) :
    let call := formatCall row vp fixed format ws fmt ap
    let called := convertedArea W env ap m (formatAt m fmt)
    let left := native call called
    (formatCode row vp fixed format).run W env native (ws ++ [fmt, ap]) m = some
      { call := (call, called), ret := returned W env row left.1,
        mem := applyAll (translate W env false) (stringWords (formatAt left.2 fmt) ap) left.2 } := by
  intro call called left
  have hlength : (formatCode row vp fixed format).parms.length = (ws ++ [fmt, ap]).length := by
    simp [formatCode, columns, h]
  obtain ⟨hformat, hap, hparm⟩ := bindParm_append 1 [.format, .ap] [fmt, ap] h
  replace hformat : bindParm _ (ws ++ [fmt, ap]) .format = some fmt := hformat
  replace hap : bindParm _ (ws ++ [fmt, ap]) .ap = some ap := hap
  have hvalues := values_formatArgs 1 format h hformat hap hparm
  rw [FormatCode.run, if_pos hlength]
  simp only [formatCode, columns, List.foldlM_cons, runFormatStmt, hformat, hap, Option.bind_some, Option.map_some,
    Option.bind_eq_bind, hvalues, vaListString2conv_mem]
  by_cases hret : noreturn row.rettype = true <;>
    simp [runFormatStmt, returned, hret, call, called, left, formatCall, convertedArea]

/-! ## The call through the table -/

theorem signature_format {last : Text} (hlast : last = dots ∨ last = vaList) {args : List Text}
    (h : ∀ arg ∈ args, contains dots arg = false) : signature (args ++ [last]) = args.map letter ++ ['*'] := by
  rw [signature_eq]
  induction args with
  | nil => rcases hlast with rfl | rfl <;> rfl
  | cons arg args ih =>
    rw [List.forall_mem_cons] at h
    have hends : endsSignature arg = false := by rw [endsSignature, h.1, Bool.and_false]
    rw [List.cons_append, upTo, hends, if_neg Bool.false_ne_true, List.map_cons, ih h.2]
    rfl

/-- What WAMR passes for an argument. -/
def passed (W : Wamr) (env : Addr) (arg : Text) (w : UInt32) : UInt32 :=
  if isPointerLetter (letter arg) then translate W env true w else w

/-- A call from wasm of the symbol of a formatting row. -/
def callFormat (W : Wamr) (env : Addr) (native : VaCallee) (row : Row) (vp : Text) (fixed : List Text) (format : Text)
    (ws : List UInt32) (m : Mem) : Option FormatRun :=
  (formatCode row vp fixed format).run W env native (nativeArgs W env (signature row.parms) ws) m

theorem Formatting.nativeArgs_eq (h : Formatting row fixed format) {ws : List UInt32} (fmt ap : Addr)
    (hlength : fixed.length = ws.length) : nativeArgs W env (signature row.parms) (ws ++ [fmt, ap]) =
      List.zipWith (passed W env) fixed ws ++ [passed W env format fmt, translate W env true ap] := by
  obtain ⟨last, hparms, hlast⟩ := h.exists_last
  have hsig : signature row.parms = fixed.map letter ++ [letter format, '*'] := by
    rw [hparms, show fixed ++ [format, last] = (fixed ++ [format]) ++ [last] by simp, signature_format hlast h.dots]
    simp
  rw [hsig, nativeArgs, List.zipWith_append (by rw [List.length_map, hlength]), List.zipWith_map_left]
  rfl

theorem Formatting.callFormat_eq (h : Formatting row fixed format) (W : Wamr) (env : Addr) (native : VaCallee)
    (vp : Text) {ws : List UInt32} (fmt ap : Addr) (m : Mem) (hlength : fixed.length = ws.length) :
    let call := formatCall row vp fixed format (List.zipWith (passed W env) fixed ws) (passed W env format fmt)
      (translate W env true ap)
    let called := convertedArea W env (translate W env true ap) m (formatAt m (passed W env format fmt))
    let left := native call called
    callFormat W env native row vp fixed format (ws ++ [fmt, ap]) m = some
      { call := (call, called), ret := returned W env row left.1,
        mem := applyAll (translate W env false)
          (stringWords (formatAt left.2 (passed W env format fmt)) (translate W env true ap)) left.2 } := by
  intro call called left
  rw [callFormat, h.nativeArgs_eq fmt ap hlength]
  exact run_formatCode W env native row vp fixed format _ _ m (by simp [hlength])

/-! ## What is conveyed -/

/-- The native function gets what the wasm call passes, the words at `texts` as native addresses and every other word as
it is. If it keeps the format, what it leaves at `texts` is translated back, and the rest stays as it leaves it. -/
structure FormatConveyed (W : Wamr) (env : Addr) (native : VaCallee) (row : Row) (vp : Text) (fixed : List Text)
    (format : Text) (ws : List UInt32) (fmt ap : Addr) (texts : List Addr) (m : Mem) (run : FormatRun) : Prop where
  call : run.call.1 = formatCall row vp fixed format (List.zipWith (conveyed W env) fixed ws) fmt ap
  textsGiven : ∀ q ∈ texts, run.call.2 q = translate W env true (m q)
  othersGiven : ∀ q ∉ texts, run.call.2 q = m q
  ret : run.ret = returned W env row (native run.call.1 run.call.2).1
  textsBack : formatAt (native run.call.1 run.call.2).2 fmt = formatAt m fmt →
    ∀ q ∈ texts, run.mem q = translate W env false ((native run.call.1 run.call.2).2 q)
  othersBack : formatAt (native run.call.1 run.call.2).2 fmt = formatAt m fmt →
    ∀ q ∉ texts, run.mem q = (native run.call.1 run.call.2).2 q

/-- In every module instance that has the format and the area at these native addresses, a call is conveyed, with null
pointers among its arguments or not. The texts of the area are those that the native function reads by the format. -/
def ConveysFormat (reading : Reading) (nulls : Bool) (row : Row) (vp : Text) (fixed : List Text) (format : Text)
    (m : Mem) (fmt ap : Addr) : Prop :=
  ∀ (W : Wamr) (env : Addr) (native : VaCallee) (ws : List UInt32) (fmtApp apApp : Addr),
    Function.LeftInverse (translate W env false) (translate W env true) → translate W env true fmtApp = fmt →
    translate W env true apApp = ap → fixed.length = ws.length →
    (nulls = false → ∀ col ∈ fixed.zip ws, contains star col.1 = true → col.2 ≠ null) →
      ∃ run, callFormat W env native row vp fixed format (ws ++ [fmtApp, apApp]) m = some run ∧
        FormatConveyed W env native row vp fixed format ws fmt ap (textWords (reading (formatAt m fmt)) ap) m run

/-- A word of the area that the native function leaves alone is as it was before the call. -/
theorem FormatConveyed.restored {native : VaCallee} {vp : Text} {ws : List UInt32} {fmt ap q : Addr}
    {texts : List Addr} {m : Mem} {run : FormatRun}
    (h : FormatConveyed W env native row vp fixed format ws fmt ap texts m run)
    (hinv : Function.LeftInverse (translate W env false) (translate W env true))
    (hformat : formatAt (native run.call.1 run.call.2).2 fmt = formatAt m fmt)
    (hq : (native run.call.1 run.call.2).2 q = run.call.2 q) : run.mem q = m q := by
  by_cases htext : q ∈ texts
  · rw [h.textsBack hformat q htext, hq, h.textsGiven q htext, hinv]
  · rw [h.othersBack hformat q htext, hq, h.othersGiven q htext]

/-- WAMR translates the format and the columns with a `*`, and no others. -/
structure FormatTranslated (fixed : List Text) (format : Text) : Prop where
  letters : ∀ arg ∈ fixed, contains star arg = isPointerLetter (letter arg)
  format : isPointerLetter (letter format) = true

section

variable (hletters : ∀ arg ∈ fixed, contains star arg = isPointerLetter (letter arg))

include hletters

theorem passed_eq {nulls : Bool} (hnulls : nulls = true → ∀ arg ∈ fixed, contains star arg = false) {arg : Text}
    (harg : arg ∈ fixed) {w : UInt32} (hw : nulls = false → contains star arg = true → w ≠ null) :
    passed W env arg w = conveyed W env arg w := by
  rw [passed, conveyed, ← hletters arg harg]
  cases hstar : contains star arg with
  | false => rfl
  | true =>
    cases nulls with
    | true => exact absurd hstar (Bool.eq_false_iff.1 (hnulls rfl arg harg))
    | false => rw [if_pos rfl, if_pos rfl, if_neg (hw rfl hstar)]

theorem zipWith_passed {nulls : Bool} (hnulls : nulls = true → ∀ arg ∈ fixed, contains star arg = false)
    {ws : List UInt32} (hne : nulls = false → ∀ col ∈ fixed.zip ws, contains star col.1 = true → col.2 ≠ null) :
    List.zipWith (passed W env) fixed ws = List.zipWith (conveyed W env) fixed ws := by
  refine List.ext_getElem? fun n => ?_
  simp only [List.getElem?_zipWith]
  cases harg : fixed[n]? with
  | none => rfl
  | some arg =>
    cases hw : ws[n]? with
    | none => rfl
    | some w =>
      have hcol : (arg, w) ∈ fixed.zip ws := List.mem_iff_getElem?.2 ⟨n, by simp [List.getElem?_zip_eq_some, harg, hw]⟩
      exact congrArg some (passed_eq hletters hnulls (List.mem_of_getElem? harg) fun hn => hne hn _ hcol)

/-- Null arrives as the base of the linear memory. -/
theorem no_star_of_passed (h : ∀ arg ∈ fixed, passed (Wamr.linear id fun _ => 1) null arg null =
    conveyed (Wamr.linear id fun _ => 1) null arg null) : ∀ arg ∈ fixed, contains star arg = false := by
  intro arg harg
  have hw := h arg harg
  by_contra hstar
  rw [Bool.not_eq_false] at hstar
  rw [passed, conveyed, ← hletters arg harg, hstar, if_pos rfl, if_pos rfl, if_pos rfl] at hw
  exact absurd hw (by decide)

end

/-- In a linear memory that starts at one, one arrives as two where it is translated. -/
theorem letters_of_passed (h : ∀ arg ∈ fixed, passed (Wamr.linear id fun _ => 1) null arg 1 =
    conveyed (Wamr.linear id fun _ => 1) null arg 1) :
    ∀ arg ∈ fixed, contains star arg = isPointerLetter (letter arg) := by
  intro arg harg
  have hw := h arg harg
  rw [passed, conveyed] at hw
  cases hstar : contains star arg <;> cases hl : isPointerLetter (letter arg)
  · rfl
  · rw [hstar, hl, if_pos rfl, if_neg Bool.false_ne_true] at hw
    exact absurd hw (by decide)
  · rw [hstar, hl, if_neg Bool.false_ne_true, if_pos rfl, if_neg (by decide)] at hw
    exact absurd hw (by decide)
  · rfl

theorem snd_of_mem_zip_replicate {n : Nat} {w : UInt32} {col : Text × UInt32}
    (h : col ∈ fixed.zip (List.replicate n w)) : col.2 = w :=
  List.eq_of_mem_replicate (List.of_mem_zip (show (col.1, col.2) ∈ _ from h)).2

/-- Calls with `w` for every argument that pass the same values. -/
theorem passed_of_values {w : UInt32}
    (h : List.zipWith (fun arg w => (castType arg, w)) fixed
        (List.zipWith (passed W env) fixed (List.replicate fixed.length w)) =
      List.zipWith (fun arg w => (castType arg, w)) fixed
        (List.zipWith (conveyed W env) fixed (List.replicate fixed.length w))) :
    ∀ arg ∈ fixed, passed W env arg w = conveyed W env arg w := by
  intro arg harg
  obtain ⟨n, hn⟩ := List.mem_iff_getElem?.1 harg
  have hlt := (List.getElem?_eq_some_iff.1 hn).1
  have hnth := congrArg (fun l : List (Text × UInt32) => l[n]?) h
  simp only [List.getElem?_zipWith, hn, List.getElem?_replicate, hlt, if_true] at hnth
  exact (Prod.mk.inj (Option.some.inj hnth)).2

section

variable {reading : Reading} {nulls : Bool} {vp : Text} {m : Mem} {fmt ap : Addr} (h : Formatting row fixed format)

include h

/-- The calls of a linear memory that starts at one, with every argument `w`. -/
theorem passed_of_conveys (hc : ConveysFormat reading nulls row vp fixed format m fmt ap) (w : UInt32)
    (hw : nulls = false → w ≠ null) :
    let W := Wamr.linear id fun _ => 1
    let texts := textWords (reading (formatAt m fmt)) ap
    let called := convertedArea W null ap m (formatAt m fmt)
    (∀ arg ∈ fixed, passed W null arg w = conveyed W null arg w) ∧ passed W null format (fmt - 1) = fmt ∧
      (∀ q ∈ texts, called q = m q + 1) ∧ ∀ q ∉ texts, called q = m q := by
  intro W texts called
  have hlength : fixed.length = (List.replicate fixed.length w).length := List.length_replicate.symm
  have hne : nulls = false → ∀ col ∈ fixed.zip (List.replicate fixed.length w), contains star col.1 = true →
      col.2 ≠ null := fun hn col hcol _ => (snd_of_mem_zip_replicate hcol).symm ▸ hw hn
  have hpred : ∀ p : Addr, translate W null true (p - 1) = p := fun p => UInt32.sub_add_cancel p 1
  obtain ⟨run, hrun, hconveyed⟩ := hc W null (fun _ m => (0, m)) _ (fmt - 1) (ap - 1)
    (Wamr.linear_leftInverse id (fun _ => 1) null) (hpred fmt) (hpred ap) hlength hne
  rw [h.callFormat_eq W null _ vp _ _ m hlength, hpred ap] at hrun
  obtain rfl := Option.some_inj.1 hrun
  have hcall := hconveyed.call
  simp only [formatCall, NativeCall.mk.injEq, true_and] at hcall
  obtain ⟨hfixed, hlast⟩ := List.append_inj hcall (by simp)
  have hformat : passed W null format (fmt - 1) = fmt := by simpa using hlast
  refine ⟨passed_of_values hfixed, hformat, fun q hq => ?_, fun q hq => ?_⟩
  · have htext := hconveyed.textsGiven q hq
    rwa [hformat] at htext
  · have hother := hconveyed.othersGiven q hq
    rwa [hformat] at hother

theorem findsTexts_of_conveys (hc : ConveysFormat reading nulls row vp fixed format m fmt ap)
    (hnd : (stringWords (formatAt m fmt) ap).Nodup) : FindsTexts reading (formatAt m fmt) ap := by
  obtain ⟨-, -, htexts, hothers⟩ := passed_of_conveys h hc 1 fun _ => by decide
  have hcalled : ∀ q, convertedArea (Wamr.linear id fun _ => 1) null ap m (formatAt m fmt) q =
      if q ∈ stringWords (formatAt m fmt) ap then m q + 1 else m q := applyAll_of_nodup hnd
  have hsucc : ∀ v : UInt32, v ≠ v + 1 := fun v => by grind
  intro q
  constructor
  · intro hq
    by_contra htext
    have hother := hothers q htext
    rw [hcalled, if_pos hq] at hother
    exact hsucc _ hother.symm
  · intro htext
    by_contra hq
    have hword := htexts q htext
    rw [hcalled, if_neg hq] at hword
    exact hsucc _ hword

theorem formatTranslated_of_conveys (hc : ConveysFormat reading nulls row vp fixed format m fmt ap) :
    FormatTranslated fixed format ∧ (nulls = true → ∀ arg ∈ fixed, contains star arg = false) := by
  obtain ⟨hone, hformat, -⟩ := passed_of_conveys h hc 1 fun _ => by decide
  have hletters := letters_of_passed hone
  refine ⟨⟨hletters, ?_⟩, fun hnulls => ?_⟩
  · by_contra hl
    rw [passed, if_neg hl] at hformat
    grind
  · obtain ⟨hnull, -⟩ := passed_of_conveys h hc null fun hn => absurd hn (by simp [hnulls])
    exact no_star_of_passed hletters hnull

theorem conveys_of_findsTexts (ht : FormatTranslated fixed format)
    (hnulls : nulls = true → ∀ arg ∈ fixed, contains star arg = false)
    (hfinds : FindsTexts reading (formatAt m fmt) ap) (hnd : (stringWords (formatAt m fmt) ap).Nodup) :
    ConveysFormat reading nulls row vp fixed format m fmt ap := by
  intro W env native ws fmtApp apApp hinv hfmt hap hlength hne
  have hvalues := @zipWith_passed W env fixed ht.letters nulls hnulls ws hne
  have hformat : passed W env format fmtApp = fmt := by rw [passed, ht.format, if_pos rfl, hfmt]
  have hcall := h.callFormat_eq W env native vp fmtApp apApp m hlength
  rw [hformat, hap, hvalues] at hcall
  have hword : ∀ (toNative : Bool) (m' : Mem) (q : Addr),
      applyAll (translate W env toNative) (stringWords (formatAt m fmt) ap) m' q =
        if q ∈ textWords (reading (formatAt m fmt)) ap then translate W env toNative (m' q) else m' q := by
    intro toNative m' q
    rw [applyAll_of_nodup hnd]
    exact if_congr (hfinds q) rfl rfl
  refine ⟨_, hcall, rfl, fun q hq => (hword true m q).trans (if_pos hq),
    fun q hq => (hword true m q).trans (if_neg hq), rfl, fun hkept q hq => ?_, fun hkept q hq => ?_⟩
  · dsimp only
    rw [hkept]
    exact (hword false _ q).trans (if_pos hq)
  · dsimp only
    rw [hkept]
    exact (hword false _ q).trans (if_neg hq)

/-- The generated function of a formatting row conveys the calls without null pointers exactly when WAMR translates the
format and the columns with a `*` and no others and the format is in phase, and those with null pointers too exactly when
there is no such column in front of the format. The format is one that the native function reads as the walker does. -/
theorem conveysFormat_iff (hread : reading (formatAt m fmt) = walkerReading (formatAt m fmt))
    (harea : AreaFits ap (argKinds false 0 (formatAt m fmt))) (nulls : Bool) (vp : Text) :
    ConveysFormat reading nulls row vp fixed format m fmt ap ↔
      FormatTranslated fixed format ∧ (nulls = true → ∀ arg ∈ fixed, contains star arg = false) ∧
        InPhase false (argKinds false 0 (formatAt m fmt)) := by
  have hnd := nodup_stringWords harea
  rw [← findsTexts_iff_inPhase hread harea]
  constructor
  · intro hc
    obtain ⟨ht, hnulls⟩ := formatTranslated_of_conveys h hc
    exact ⟨ht, hnulls, findsTexts_of_conveys h hc hnd⟩
  · rintro ⟨ht, hnulls, hfinds⟩
    exact conveys_of_findsTexts h ht hnulls hfinds hnd

end

def syslogRow : Row :=
  ⟨"syslog".toList, "syslog.h".toList, [], void, ["int".toList, "FAR const IPTR char *".toList, dots]⟩

theorem formatting_syslog : Formatting syslogRow ["int".toList] "FAR const IPTR char *".toList where
  parms := .inl rfl
  family := .inl (by decide)
  scanf := by decide
  void := by decide
  vaList := by decide
  dots := by decide
  formatType := by decide
  words := by decide
  result := by decide

/-- `"%d: %s"`, and an area for it. -/
def syslogMem : Mem := Function.update (Function.update (fun _ => 0) 0x5000 0x203a6425) 0x5004 0x7325

theorem formatAt_syslogMem : formatAt syslogMem 0x5000 = "%d: %s".toList := by
  decide +kernel

theorem conveys_syslog : ConveysFormat walkerReading true syslogRow ['v'] ["int".toList] "FAR const IPTR char *".toList
    syslogMem 0x5000 0x2000 := by
  have harea : AreaFits 0x2000 (argKinds false 0 (formatAt syslogMem 0x5000)) := by
    rw [formatAt_syslogMem]
    exact ⟨by decide, by decide, by decide⟩
  refine (conveysFormat_iff formatting_syslog rfl harea true ['v']).2 ⟨⟨by decide, by decide⟩, by decide, ?_⟩
  rw [formatAt_syslogMem]
  decide

end VelaWasm.Tools
