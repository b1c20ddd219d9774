/-
What a generated glue function of a row with `...` in front of a type does: it takes the first word of the argument area,
where there is one, and passes it as the argument behind the fixed ones, translated for `ioctl` alone. Like the formatting
functions it compares no parameter with `addr_app`. The native function gets the arguments of the wasm call exactly when
WAMR translates the fixed columns with a `*` and no others, and the type behind `...` has a `*` for `ioctl` and for it only.
-/
import VelaWasm.Tools.FormatGlue

namespace VelaWasm.Tools

open VelaWasm.InPlace VelaWasm.LibcBypass

/-! ## Programs -/

/-- An argument of the native function: a parameter cast to a type, or the first word of the area. -/
inductive DotsArg where
  | parm (cast : Text) (n : Nat)
  | area (type : Text) (translated : Bool)
  deriving DecidableEq, Repr

/-- The glue function of a row with `...`, which is a call and the return of its result. -/
structure DotsCode where
  name : Text
  noreturn : Bool
  parms : List Parm
  addrcov : Bool
  callee : Text
  args : List DotsArg

def DotsArg.text : DotsArg → Text
  | .parm cast n => argText (cast, n)
  | .area type translated =>
    "(*(uintptr_t **)&ap != NULL && **(uintptr_t **)&ap != (uintptr_t)NULL) ? ".toList ++
      if translated then
        "(uintptr_t)addr_app_to_native((uintptr_t)va_arg(ap, ".toList ++ type ++ ")) : (uintptr_t)NULL".toList
      else "(uintptr_t)va_arg(ap, ".toList ++ type ++ ") : (uintptr_t)NULL".toList

def dotsArgsText : List DotsArg → Text
  | [] => []
  | arg :: args => arg.text ++ args.flatMap fun arg => ", ".toList ++ arg.text

def DotsCode.text (code : DotsCode) : Text :=
  (if code.noreturn then "void glue_".toList else "uintptr_t glue_".toList) ++ code.name ++
    "(wasm_exec_env_t env".toList ++ code.parms.flatMap Parm.declaration ++
    ")\n\x7b\n  wasm_module_inst_t module_inst = get_module_inst(env);\n  uintptr_t ret;\n".toList ++
    (if code.noreturn then "  ".toList else "  ret = ".toList) ++
    (if code.addrcov then "addr_native_to_app((uintptr_t)".toList else []) ++ code.callee ++ "(".toList ++
    dotsArgsText code.args ++ (if code.addrcov then ")".toList else []) ++ ");\n".toList ++
    (if code.noreturn then [] else "  return ret;\n".toList) ++ "\x7d\n\n".toList

/-! ## Runs -/

variable (W : Wamr) (env : Addr)

/-- The value of an argument; none where it names a parameter that is not declared. -/
def DotsArg.value (parms : Parm → Option UInt32) (m : Mem) : DotsArg → Option (Text × UInt32)
  | .parm cast n => (parms (.parm n)).map (cast, ·)
  | .area _ translated => (parms .ap).map fun ap =>
    ("uintptr_t".toList, if ap ≠ null ∧ m ap ≠ null then if translated then translate W env true (m ap) else m ap else null)

def DotsCode.run (native : VaCallee) (code : DotsCode) (args : List UInt32) (m : Mem) : Option FormatRun :=
  if code.parms.length = args.length then
    (code.args.mapM (DotsArg.value W env (bindParm code.parms args) m)).map fun values =>
      let (r, mem) := native ⟨code.callee, values⟩ m
      let ret := if code.addrcov then translate W env false r else r
      ⟨(⟨code.callee, values⟩, m), if code.noreturn then none else some ret, mem⟩
  else none

/-! ## The program of a row -/

/-- A row of words with `...` in front of a type, of a function that does not format. -/
structure TakesArea (row : Row) (fixed : List Text) (type : Text) (rest : List Text) : Prop where
  parms : row.parms = fixed ++ dots :: type :: rest
  findex : findex row = 0
  void : ∀ arg ∈ fixed, arg ≠ void
  dots : ∀ arg ∈ fixed, contains dots arg = false
  words : ∀ arg ∈ fixed, wideParm arg = false
  typeWord : wideParm type = false
  result : wideReturn row.rettype = false

def dotsCode (row : Row) (vp : Text) (fixed : List Text) (type : Text) : DotsCode where
  name := row.name
  noreturn := noreturn row.rettype
  parms := (columns fixed).map (fun col => .parm col.2) ++ [.ap]
  addrcov := contains star row.rettype
  callee := vp ++ row.name
  args := ((columns fixed).map fun col => (castType col.1, col.2)).map (fun arg => .parm arg.1 arg.2) ++
    [.area type (row.name == "ioctl".toList)]

/-! ## The text of the program -/

variable {row : Row} {fixed rest : List Text} {type : Text}

theorem TakesArea.declared_eq (h : TakesArea row fixed type rest) :
    row.declared = (columns fixed).map (fun col => .parm col.2) ++ [.ap] := by
  have happend := declareParms_append 0 (Tools.dots :: type :: rest) h.void h.dots
  rw [Nat.add_zero] at happend
  rw [Row.declared, h.findex, h.parms, happend, declareParms, if_neg (by simp only [parm1Index]; omega), if_pos rfl]
  rfl

theorem dotsArg_text (name : Text) :
    dotsArg name (type :: rest) = (DotsArg.area type (name == "ioctl".toList)).text := by
  delta dotsArg DotsArg.text
  dsimp only
  by_cases hname : name = "ioctl".toList
  · rw [if_pos hname, if_pos (beq_iff_eq.2 hname)]
    simp only [List.append_assoc]
  · rw [if_neg hname, if_neg (mt beq_iff_eq.1 hname)]
    simp only [List.append_assoc]

theorem text_parm (cast : Text) (n : Nat) : (DotsArg.parm cast n).text = argText (cast, n) := rfl

/-- The arguments and the one behind them. -/
theorem dotsArgsText_append (args : List (Text × Nat)) (last : DotsArg) :
    dotsArgsText (args.map (fun arg => .parm arg.1 arg.2) ++ [last]) =
      argsText args ++ (if args = [] then [] else ", ".toList) ++ last.text := by
  cases args with
  | nil => simp [dotsArgsText, argsText]
  | cons arg args =>
    simp only [List.map_cons, List.cons_append, dotsArgsText, argsText, List.flatMap_append, List.flatMap_map, text_parm,
      List.flatMap_cons, List.flatMap_nil, List.append_nil, List.append_assoc, reduceCtorEq, if_false]

theorem TakesArea.callArgs_eq (h : TakesArea row fixed type rest) :
    callArgs row.name (Tools.findex row) parm1Index row.parms = dotsArgsText (dotsCode row [] fixed type).args := by
  have happend := callArgs_append row.name (Tools.dots :: type :: rest) h.void h.dots
  rw [h.findex, h.parms, happend, dotsCode, dotsArgsText_append, callArgs, if_pos rfl, dotsArg_text, List.append_assoc]
  cases fixed with
  | nil => rfl
  | cons arg fixed =>
    rw [if_pos (by simp only [List.length_cons]; omega), if_neg (by simp [columns])]

theorem TakesArea.isAddr_eq (h : TakesArea row fixed type rest) : isAddr false row.parms = false := by
  rw [h.parms]
  exact isAddr_last (.inl rfl) false fixed _

/-- The text that the generator writes is that of the program. -/
theorem dotsCode_text (h : TakesArea row fixed type rest) (vp : Text) :
    functionText row vp = (dotsCode row vp fixed type).text := by
  have hcov : "addr_native_to_app((uintptr_t)".toList ≠ [] := by decide
  have hargs : dotsArgsText (dotsCode row vp fixed type).args = dotsArgsText (dotsCode row [] fixed type).args := rfl
  delta functionText DotsCode.text
  dsimp only
  rw [h.declared_eq, hargs, ← h.callArgs_eq, h.isAddr_eq, h.findex]
  delta dotsCode
  dsimp only
  cases noreturn row.rettype <;> cases contains star row.rettype <;>
    simp only [Bool.false_eq_true, ↓reduceIte, hcov, List.append_assoc, List.append_nil]

/-! ## The run of the program -/

variable {W env}

/-- The native call of a row with `...`. -/
def dotsCall (row : Row) (vp : Text) (fixed : List Text) (values : List UInt32) (word : UInt32) : NativeCall :=
  ⟨vp ++ row.name, List.zipWith (fun arg w => (castType arg, w)) fixed values ++ [("uintptr_t".toList, word)]⟩

/-- What the function makes of the first word of the area. -/
def areaWord (W : Wamr) (env : Addr) (name : Text) (w : UInt32) : UInt32 :=
  if w = null then null else if name == "ioctl".toList then translate W env true w else w

/-- A call of the glue function calls the native function once, with the first word of the area behind the parameters. -/
theorem run_dotsCode (W : Wamr) (env : Addr) (native : VaCallee) (row : Row) (vp : Text) (fixed : List Text) (type : Text)
    {ws : List UInt32} {ap : Addr} (hap : ap ≠ null) (m : Mem) (h : fixed.length = ws.length) :
    let call := dotsCall row vp fixed ws (areaWord W env row.name (m ap))
    (dotsCode row vp fixed type).run W env native (ws ++ [ap]) m =
      some ⟨(call, m), returned W env row (native call m).1, (native call m).2⟩ := by
  intro call
  have hlength : (dotsCode row vp fixed type).parms.length = (ws ++ [ap]).length := by simp [dotsCode, columns, h]
  obtain ⟨-, hbound, hparm⟩ := bindParm_append 1 [.ap] [ap] h
  replace hbound : bindParm _ (ws ++ [ap]) .ap = some ap := hbound
  have hfixed := @args_eq (fun n => bindParm _ (ws ++ [ap]) (.parm n)) 1 fixed ws h hparm
  have hword : (if ap ≠ null ∧ m ap ≠ null then
      if (row.name == "ioctl".toList) = true then translate W env true (m ap) else m ap else null) =
        areaWord W env row.name (m ap) := by
    by_cases hw : m ap = null
    · rw [areaWord, if_pos hw, if_neg fun h => h.2 hw]
    · rw [areaWord, if_neg hw, if_pos ⟨hap, hw⟩]
  have hvalues : (dotsCode row vp fixed type).args.mapM
      (DotsArg.value W env (bindParm (dotsCode row vp fixed type).parms (ws ++ [ap])) m) = some call.args := by
    have hlast : [DotsArg.area type (row.name == "ioctl".toList)].mapM
        (DotsArg.value W env (bindParm (dotsCode row vp fixed type).parms (ws ++ [ap])) m) =
          some [("uintptr_t".toList, areaWord W env row.name (m ap))] := by
      have hap' : bindParm (dotsCode row vp fixed type).parms (ws ++ [ap]) .ap = some ap := hbound
      rw [List.mapM_cons, List.mapM_nil, DotsArg.value, hap', Option.map_some, hword]
      rfl
    have hfront : (((columns fixed).map fun col => (castType col.1, col.2)).map fun arg => DotsArg.parm arg.1 arg.2).mapM
        (DotsArg.value W env (bindParm (dotsCode row vp fixed type).parms (ws ++ [ap])) m) =
          some (List.zipWith (fun arg w => (castType arg, w)) fixed ws) := by
      rw [List.mapM_map]
      exact hfixed
    rw [show (dotsCode row vp fixed type).args = _ ++ _ from rfl, List.mapM_append, hfront, hlast]
    rfl
  rw [DotsCode.run, if_pos hlength, hvalues, Option.map_some]
  rfl

/-! ## The call through the table -/

/-- A call from wasm of the symbol of a row with `...`. -/
def callDots (W : Wamr) (env : Addr) (native : VaCallee) (row : Row) (vp : Text) (fixed : List Text) (type : Text)
    (ws : List UInt32) (m : Mem) : Option FormatRun :=
  (dotsCode row vp fixed type).run W env native (nativeArgs W env (signature row.parms) ws) m

/-- The signature ends at `...`, for which WAMR translates the address of the area. -/
theorem signature_dots {args : List Text} (h : ∀ arg ∈ args, contains dots arg = false) (rest : List Text) :
    signature (args ++ dots :: rest) = args.map letter ++ ['*'] := by
  rw [signature_eq]
  induction args with
  | nil => rfl
  | cons arg args ih =>
    rw [List.forall_mem_cons] at h
    have hends : endsSignature arg = false := by rw [endsSignature, h.1, Bool.and_false]
    rw [List.cons_append, upTo, hends, if_neg Bool.false_ne_true, List.map_cons, ih h.2]
    rfl

theorem TakesArea.nativeArgs_eq (h : TakesArea row fixed type rest) {ws : List UInt32} (ap : Addr)
    (hlength : fixed.length = ws.length) : nativeArgs W env (signature row.parms) (ws ++ [ap]) =
      List.zipWith (passed W env) fixed ws ++ [translate W env true ap] := by
  rw [h.parms, signature_dots h.dots, nativeArgs, List.zipWith_append (by rw [List.length_map, hlength]),
    List.zipWith_map_left]
  rfl

/-- In every module instance the native function gets what a wasm call passes, with null pointers among it or not, and
the first word of the area as the type behind `...` says; and it leaves the memory as it does without the bridge. -/
def ConveysArea (nulls : Bool) (row : Row) (vp : Text) (fixed : List Text) (type : Text) : Prop :=
  ∀ (W : Wamr) (env : Addr) (native : VaCallee) (ws : List UInt32) (ap : Addr) (m : Mem),
    Function.LeftInverse (translate W env false) (translate W env true) → translate W env true ap ≠ null →
    fixed.length = ws.length → (nulls = false → ∀ col ∈ fixed.zip ws, contains star col.1 = true → col.2 ≠ null) →
      let word := conveyed W env type (m (translate W env true ap))
      let call := dotsCall row vp fixed (List.zipWith (conveyed W env) fixed ws) word
      callDots W env native row vp fixed type (ws ++ [ap]) m =
        some ⟨(call, m), returned W env row (native call m).1, (native call m).2⟩

/-- WAMR translates the fixed columns with a `*` and no others, and the function is `ioctl` exactly when the type behind
`...` has a `*`. -/
structure AreaTranslated (row : Row) (fixed : List Text) (type : Text) : Prop where
  letters : ∀ arg ∈ fixed, contains star arg = isPointerLetter (letter arg)
  word : contains star type = (row.name == "ioctl".toList)

theorem areaWord_eq {row : Row} (h : contains star type = (row.name == "ioctl".toList)) (w : UInt32) :
    areaWord W env row.name w = conveyed W env type w := by
  rw [areaWord, conveyed, ← h]
  by_cases hw : w = null
  · simp [hw]
  · simp [hw]

/-- A call of the symbol. -/
theorem callDots_eq (h : TakesArea row fixed type rest) (native : VaCallee) (vp : Text) {ws : List UInt32} {ap : Addr}
    (hap : translate W env true ap ≠ null) (m : Mem) (hlength : fixed.length = ws.length) :
    let call := dotsCall row vp fixed (List.zipWith (passed W env) fixed ws)
      (areaWord W env row.name (m (translate W env true ap)))
    callDots W env native row vp fixed type (ws ++ [ap]) m =
      some ⟨(call, m), returned W env row (native call m).1, (native call m).2⟩ := by
  rw [callDots, h.nativeArgs_eq ap hlength]
  exact run_dotsCode W env native row vp fixed type hap m (by simp [hlength])

/-- A row whose calls are conveyed with every argument `w`. -/
theorem passed_of_conveysArea {nulls : Bool} {vp : Text} (h : TakesArea row fixed type rest)
    (hc : ConveysArea nulls row vp fixed type)
    (hinv : Function.LeftInverse (translate W env false) (translate W env true)) (w : UInt32)
    (hw : nulls = false → w ≠ null) {ap : Addr} (hap : translate W env true ap ≠ null) :
    (∀ arg ∈ fixed, passed W env arg w = conveyed W env arg w) ∧ areaWord W env row.name w = conveyed W env type w := by
  have hlength : fixed.length = (List.replicate fixed.length w).length := List.length_replicate.symm
  have hne : nulls = false → ∀ col ∈ fixed.zip (List.replicate fixed.length w), contains star col.1 = true →
      col.2 ≠ null := fun hn col hcol _ => (snd_of_mem_zip_replicate hcol).symm ▸ hw hn
  have hcall := hc W env (fun _ m => (0, m)) _ ap (fun _ => w) hinv hap hlength hne
  rw [callDots_eq h _ vp hap _ hlength] at hcall
  simp only [Option.some_inj, FormatRun.mk.injEq, Prod.mk.injEq, dotsCall, NativeCall.mk.injEq, true_and] at hcall
  obtain ⟨hfixed, hlast⟩ := List.append_inj hcall.1.1 (by simp)
  exact ⟨passed_of_values hfixed, by simpa using hlast⟩

/-- The generated function of a row with `...` in front of a word conveys the calls without null pointers exactly when
WAMR translates the fixed columns with a `*` and no others and the function is `ioctl` just where the word is a pointer,
and those with null pointers too exactly when moreover no fixed column has a `*`. -/
theorem conveysArea_iff (h : TakesArea row fixed type rest) (nulls : Bool) (vp : Text) :
    ConveysArea nulls row vp fixed type ↔
      AreaTranslated row fixed type ∧ (nulls = true → ∀ arg ∈ fixed, contains star arg = false) := by
  constructor
  · intro hc
    -- the linear memory starts at one, so null arrives as one and one as two
    have hinv := Wamr.linear_leftInverse id (fun _ => 1) null
    have hap : translate (Wamr.linear id fun _ => 1) null true null ≠ null := by decide
    obtain ⟨hone, hword⟩ := passed_of_conveysArea h hc hinv 1 (fun _ => by decide) hap
    have hletters := letters_of_passed hone
    refine ⟨⟨hletters, ?_⟩, fun hnulls => ?_⟩
    · rw [areaWord, conveyed, if_neg (by decide)] at hword
      cases hstar : contains star type <;> cases hname : row.name == "ioctl".toList
      · rfl
      · rw [hstar, hname, if_pos rfl, if_neg Bool.false_ne_true] at hword
        exact absurd hword (by decide)
      · rw [hstar, hname, if_neg Bool.false_ne_true, if_pos rfl, if_neg (by decide)] at hword
        exact absurd hword (by decide)
      · rfl
    · obtain ⟨hnull, -⟩ := passed_of_conveysArea h hc hinv null (fun hn => absurd hn (by simp [hnulls])) hap
      exact no_star_of_passed hletters hnull
  · rintro ⟨ht, hnulls⟩ W env native ws ap m hinv hap hlength hne
    have hvalues := @zipWith_passed W env fixed ht.letters nulls hnulls ws hne
    rw [callDots_eq h native vp hap m hlength, hvalues, areaWord_eq ht.word]

def fcntlRow : Row :=
  ⟨"fcntl".toList, "fcntl.h".toList, [], "int".toList, ["int".toList, "int".toList, dots, "int".toList]⟩

theorem takesArea_fcntl : TakesArea fcntlRow ["int".toList, "int".toList] "int".toList [] where
  parms := rfl
  findex := by decide
  void := by decide
  dots := by decide
  words := by decide
  typeWord := by decide
  result := by decide

theorem conveys_fcntl : ConveysArea true fcntlRow [] ["int".toList, "int".toList] "int".toList :=
  (conveysArea_iff takesArea_fcntl true []).2 ⟨⟨by decide, by decide⟩, by decide⟩

end VelaWasm.Tools
