/-
The command line of `lwac` as a whole: the loop of `parse_arguments` ends at the first option that is refused or asks
for help; where there is none, each argument is the one of the last option of its kind, whatever stands between them, and
an operand counts only without `-m`.
-/
import VelaWasm.Lwac.Main

namespace VelaWasm.Lwac

variable (L : Libc)

/-! ## The specification -/

/-- The value that the option makes `parse_arguments` return, if it ends the loop. -/
def Getopt.refused (o : Getopt) : Option Int32 :=
  match o.opt with
  | 'm' | 'f' | 'n' | 'p' => none
  | 's' | 'e' => if L.atoi o.optarg ≤ 0 then some (-1) else none
  | 'h' => some 1
  | _ => some (-1)

/-- The argument of the last option `opt`. -/
def lastArg (opt : Char) : List Getopt → Option CString
  | [] => none
  | o :: options => (lastArg opt options).or (if o.opt = opt then some o.optarg else none)

def given (opt : Char) (options : List Getopt) : Bool := options.any fun o => o.opt == opt

/-- What the options make of the arguments. -/
def applyOptions (options : List Getopt) (args : LwacArgs) : LwacArgs where
  filename := (lastArg 'm' options).or args.filename
  stackSize := ((lastArg 's' options).map L.atoi).getD args.stackSize
  heapSize := ((lastArg 'e' options).map L.atoi).getD args.heapSize
  noMmap := given 'n' options || args.noMmap
  entryFunc := (lastArg 'f' options).or args.entryFunc
  showPs := given 'p' options || args.showPs

def defaultArgs : LwacArgs := ⟨none, L.defaultAppStackSize, L.defaultAppHeapSize, false, none, false⟩

/-- The arguments of a command line with these options and operands. -/
def commandLine (options : List Getopt) (operands : List CString) : LwacArgs :=
  let args := applyOptions L options (defaultArgs L)
  { args with filename := (lastArg 'm' options).or operands.head? }

/-! ## One option -/

variable {L} {o : Getopt} {options : List Getopt} {args : LwacArgs} {fFlag : Bool}

/-- The arguments behind one option that is accepted. -/
def acceptOption (L : Libc) (o : Getopt) (args : LwacArgs) : LwacArgs := applyOptions L [o] args

theorem parseOptions_refused {ret : Int32} (h : o.refused L = some ret) :
    parseOptions L (o :: options) args fFlag = .error ret := by
  obtain ⟨opt, optarg⟩ := o
  unfold Getopt.refused at h
  unfold parseOptions
  split at h <;> first | cases h | skip
  all_goals simp_all

theorem parseOptions_accepted (h : o.refused L = none) :
    parseOptions L (o :: options) args fFlag =
      parseOptions L options (acceptOption L o args) (o.opt == 'm' || fFlag) := by
  obtain ⟨opt, optarg⟩ := o
  unfold Getopt.refused at h
  conv_lhs => unfold parseOptions
  split at h <;> simp_all [acceptOption, applyOptions, lastArg, given]

theorem applyOptions_cons (o : Getopt) (options : List Getopt) (args : LwacArgs) :
    applyOptions L (o :: options) args = applyOptions L options (acceptOption L o args) := by
  have hsize : ∀ (opt : Char) (size : Int32), ((lastArg opt (o :: options)).map L.atoi).getD size =
      ((lastArg opt options).map L.atoi).getD (((lastArg opt [o]).map L.atoi).getD size) := by
    intro opt size
    cases hlast : lastArg opt options <;> simp [lastArg, hlast]
  simp only [acceptOption, applyOptions, hsize, LwacArgs.mk.injEq, true_and]
  refine ⟨?_, ?_, ?_, ?_⟩
  · simp [lastArg, Option.or_assoc]
  · simp [given, ← Bool.or_assoc, Bool.or_comm]
  · simp [lastArg, Option.or_assoc]
  · simp [given, ← Bool.or_assoc, Bool.or_comm]

/-! ## All options -/

/-- The loop ends at the first option that ends it, and else has read every option. -/
theorem parseOptions_eq (options : List Getopt) (args : LwacArgs) (fFlag : Bool) :
    parseOptions L options args fFlag =
      match options.findSome? (Getopt.refused L) with
      | some ret => .error ret
      | none => .ok (applyOptions L options args, given 'm' options || fFlag) := by
  induction options generalizing args fFlag with
  | nil => rfl
  | cons o options ih =>
    rw [List.findSome?_cons]
    cases ho : o.refused L with
    | some ret => exact parseOptions_refused ho
    | none =>
      rw [parseOptions_accepted ho, ih, applyOptions_cons]
      cases options.findSome? (Getopt.refused L) with
      | some ret => rfl
      | none => simp [given, ← Bool.or_assoc, Bool.or_comm]

theorem lastArg_isSome (opt : Char) (options : List Getopt) : (lastArg opt options).isSome = given opt options := by
  induction options with
  | nil => rfl
  | cons o options ih =>
    rw [lastArg, Option.isSome_or, ih]
    by_cases h : o.opt = opt <;> simp [given, h]

/-- `parse_arguments` on any command line: it returns what the first option that ends the loop gives; else it fails
exactly when there is no file and no `--ps`, and else each argument is that of the last option of its kind. -/
theorem parseArguments_eq (L : Libc) (argv : List CString) :
    parseArguments L argv =
      let (options, operands) := L.getoptLong argv
      match options.findSome? (Getopt.refused L) with
      | some ret => .error ret
      | none =>
        if (commandLine L options operands).filename = none ∧ given 'p' options = false then .error (-1)
        else .ok (commandLine L options operands) := by
  unfold parseArguments
  generalize L.getoptLong argv = parsed
  obtain ⟨options, operands⟩ := parsed
  simp only [parseOptions_eq, Bool.or_false]
  cases options.findSome? (Getopt.refused L) with
  | some ret => rfl
  | none =>
    have hm := lastArg_isSome 'm' options
    cases hlast : lastArg 'm' options with
    | some file =>
      rw [hlast, Option.isSome_some] at hm
      simp [← hm, applyOptions, commandLine, defaultArgs, hlast]
    | none =>
      rw [hlast, Option.isSome_none] at hm
      cases operands with
      | nil => cases hp : given 'p' options <;> simp [← hm, applyOptions, commandLine, defaultArgs, hlast, hp]
      | cons file operands => simp [← hm, applyOptions, commandLine, defaultArgs, hlast]

end VelaWasm.Lwac
