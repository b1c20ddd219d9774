/-
The glue functions of `feature_wrapper.c` and `netlib.c`, which are written by hand after the generator's pattern: each is
the program that the generator has for a row with the types it casts to, registered under a signature of its own. Of
every one of them the native function gets what a wasm call passes.
-/
import VelaWasm.Tools.GlueMeaning

namespace VelaWasm.Tools

/-! ## The functions -/

/-- A glue function and the signature that the table registers it under. -/
structure GlueSymbol where
  row : Row
  signature : Text
  deriving DecidableEq, Repr

/-- A function of the generator's pattern, with the types that its arguments and its result are cast to. -/
def glueSymbol (name rettype : String) (parms : List String) (signature : String) : GlueSymbol :=
  ⟨⟨name.toList, [], [], rettype.toList, parms.map String.toList⟩, signature.toList⟩

def GlueSymbol.code (s : GlueSymbol) : GlueCode := glueCode s.row []

/-- The letters between the parentheses. -/
def GlueSymbol.letters (s : GlueSymbol) : Text := (s.signature.drop 1).takeWhile (· != ')')

/-- The letters behind them. -/
def GlueSymbol.result (s : GlueSymbol) : Text := (s.signature.dropWhile (· != ')')).drop 1

def glueFeatureMalloc : GlueSymbol := glueSymbol "FeatureMalloc" "void*" ["size_t", "FeatureType"] "(ii)i"
def glueFeatureDupValue : GlueSymbol := glueSymbol "FeatureDupValue" "void*" ["void*"] "(*)i"
def glueFeatureFreeValue : GlueSymbol := glueSymbol "FeatureFreeValue" "void" ["void*"] "(*)"
def glueFeatureGetProtoHandle : GlueSymbol := glueSymbol "FeatureGetProtoHandle" "void*" ["void*"] "(*)i"
def glueFeatureGetProtoData : GlueSymbol := glueSymbol "FeatureGetProtoData" "void*" ["void*"] "(*)i"
def glueFeatureSetProtoData : GlueSymbol := glueSymbol "FeatureSetProtoData" "void" ["void*", "void*"] "(**)"
def glueFeatureGetObjectData : GlueSymbol := glueSymbol "FeatureGetObjectData" "void*" ["void*"] "(*)i"
def glueFeatureSetObjectData : GlueSymbol := glueSymbol "FeatureSetObjectData" "void" ["void*", "void*"] "(**)"
def glueFeatureRemoveCallback : GlueSymbol :=
  glueSymbol "FeatureRemoveCallback" "uintptr_t" ["void*", "FtCallbackId"] "(*i)i"
def glueFeaturePromiseReject : GlueSymbol :=
  glueSymbol "FeaturePromiseReject" "uintptr_t" ["void*", "FtPromiseId", "int", "const char*"] "(*ii$)i"
def glueFeatureGetUVLoop : GlueSymbol := glueSymbol "FeatureGetUVLoop" "void*" ["void*"] "(*)i"
def glueFeatureGetManagerHandleFromProto : GlueSymbol :=
  glueSymbol "FeatureGetManagerHandleFromProto" "void*" ["void*"] "(*)i"
def glueFeatureDupInstanceHandle : GlueSymbol := glueSymbol "FeatureDupInstanceHandle" "void*" ["void*"] "(*)i"
def glueFeatureFreeInstanceHandle : GlueSymbol := glueSymbol "FeatureFreeInstanceHandle" "void" ["void*"] "(*)"
def glueFeatureInstanceIsDetached : GlueSymbol :=
  glueSymbol "FeatureInstanceIsDetached" "uintptr_t" ["void*"] "(*)i"
def glueFeatureGetJsonString : GlueSymbol :=
  glueSymbol "FeatureGetJsonString" "void*" ["struct FtJSONObject*"] "(*)i"

/-- `g_feature_native_symbols` -/
def gFeatureNativeSymbols : List GlueSymbol :=
  [glueFeatureMalloc, glueFeatureDupValue, glueFeatureFreeValue, glueFeatureGetProtoHandle, glueFeatureGetProtoData,
    glueFeatureSetProtoData, glueFeatureGetObjectData, glueFeatureSetObjectData, glueFeatureRemoveCallback,
    glueFeaturePromiseReject, glueFeatureGetUVLoop, glueFeatureGetManagerHandleFromProto, glueFeatureDupInstanceHandle,
    glueFeatureFreeInstanceHandle, glueFeatureInstanceIsDetached, glueFeatureGetJsonString]

def glueNetlibIfup : GlueSymbol := glueSymbol "netlib_ifup" "uintptr_t" ["const char*"] "($)i"
def glueNetlibSetIpv4dnsaddr : GlueSymbol :=
  glueSymbol "netlib_set_ipv4dnsaddr" "uintptr_t" ["FAR const struct in_addr*"] "(*)i"

/-- `g_netlib_native_symbols` -/
def gNetlibNativeSymbols : List GlueSymbol := [glueNetlibIfup, glueNetlibSetIpv4dnsaddr]

/-! ## Calls -/

/-- A call from wasm, with the arguments that WAMR makes of it for the signature of the table. -/
def GlueSymbol.call (s : GlueSymbol) (W : Wamr) (env : Addr) (native : NativeCall → UInt32) (ws : List UInt32) :
    Option (NativeCall × Option UInt32) :=
  s.code.run W env native (nativeArgs W env s.letters ws)

/-- The signature and the function are made for each other. -/
structure WellRegistered (s : GlueSymbol) : Prop where
  arity : s.letters.length = s.row.parms.length
  letters : ∀ col ∈ s.row.parms.zip s.letters, contains star col.1 = isPointerLetter col.2
  compared : ∀ arg ∈ s.row.parms, contains star arg = true → isAddr false s.row.parms = true
  result : s.result = if noreturn s.row.rettype then [] else ['i']

instance (s : GlueSymbol) : Decidable (WellRegistered s) :=
  decidable_of_iff (_ ∧ _ ∧ _ ∧ _) ⟨fun h => ⟨h.1, h.2.1, h.2.2.1, h.2.2.2⟩, fun h => ⟨h.1, h.2, h.3, h.4⟩⟩

theorem wellRegistered_symbols : ∀ s ∈ gFeatureNativeSymbols ++ gNetlibNativeSymbols, WellRegistered s := by
  decide

/-- What the function has behind its comparisons is what the wasm call means. -/
theorem WellRegistered.values_eq {s : GlueSymbol} (h : WellRegistered s) {W : Wamr} {env : Addr}
    (hinj : Function.Injective (translate W env true)) {ws : List UInt32} (hlength : s.row.parms.length = ws.length) :
    List.zipWith (checked W env s.row) s.row.parms (nativeArgs W env s.letters ws) =
      List.zipWith (conveyed W env) s.row.parms ws := by
  refine List.ext_getElem? fun n => ?_
  by_cases hn : n < s.row.parms.length
  · have hletter : n < s.letters.length := h.arity ▸ hn
    have hword : n < ws.length := hlength ▸ hn
    have hcol : (s.row.parms[n], s.letters[n]) ∈ s.row.parms.zip s.letters :=
      List.mem_iff_getElem.2 ⟨n, by simp [hn, hletter], by simp⟩
    have hvalue : checked W env s.row s.row.parms[n]
        (if isPointerLetter s.letters[n] then translate W env true ws[n] else ws[n]) =
          conveyed W env s.row.parms[n] ws[n] :=
      checked_eq_conveyed (h.letters _ hcol) (h.compared _ (List.getElem_mem hn)) hinj ws[n]
    simp only [List.getElem?_zipWith, nativeArgs, List.getElem?_eq_getElem hn, List.getElem?_eq_getElem hletter,
      List.getElem?_eq_getElem hword, hvalue]
  · simp only [List.getElem?_zipWith, List.getElem?_eq_none (Nat.le_of_not_lt hn)]

/-- Of each function written by hand, in every module instance in which WAMR translates distinct addresses to distinct
ones, the native function gets the arguments of the wasm call, each pointer at its native address and null as null, and
the call returns what it does. -/
theorem handwritten_conveys : ∀ s ∈ gFeatureNativeSymbols ++ gNetlibNativeSymbols,
    ∀ (W : Wamr) (env : Addr) (native : NativeCall → UInt32) (ws : List UInt32),
      Function.Injective (translate W env true) → s.row.parms.length = ws.length →
        let call := nativeCall s.row [] (List.zipWith (conveyed W env) s.row.parms ws)
        s.call W env native ws = some (call, returned W env s.row (native call)) := by
  intro s hs W env native ws hinj hlength
  have h := wellRegistered_symbols s hs
  have hargs : s.row.parms.length = (nativeArgs W env s.letters ws).length := by
    rw [nativeArgs, List.length_zipWith, h.arity, hlength, Nat.min_self]
  have hrun := run_glueCode W env native s.row [] hargs
  rw [h.values_eq hinj hlength] at hrun
  exact hrun

/-- A call without the name of an interface. -/
theorem netlibIfup_null : glueNetlibIfup.call (.linear id fun _ => 0x1000) null (fun _ => 7) [null] =
    some (⟨"netlib_ifup".toList, [("const char*".toList, null)]⟩, some 7) :=
  handwritten_conveys glueNetlibIfup (by decide) (.linear id fun _ => 0x1000) null (fun _ => 7) [null]
    (Wamr.linear_leftInverse _ _ null).injective rfl

end VelaWasm.Tools
