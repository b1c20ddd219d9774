/-
`glue_strtol`, `glue_strtoul`, `glue_strtoll` and `glue_strtoull`. Each translates the word at `endptr` before and
after the native call, without a test for a null `endptr`, and returns the result as a `uintptr_t`.
-/
import VelaWasm.Wamr

namespace VelaWasm.LibcBypass

/-! ## The glue -/

/-- A native parser: the number that a string denotes in a base, and how many of its bytes are parsed. -/
abbrev Parser (α : Type) := List UInt8 → UInt32 → α × UInt32

/-- What a glue function returns, the memory it leaves, and the addresses it dereferences itself. -/
structure GlueCall where
  ret : UInt32
  mem : Mem
  derefs : List Addr

section

variable (W : Wamr) (env parm1 parm2 parm3 : Addr) (text : List UInt8) (m : Mem)

/-- The native function stores the end of the number of the string `text` at `parm1`, if it is given a place. -/
def storeEnd (parsed : UInt32) (m : Mem) : Mem :=
  if parm2 = null then m else Function.update m parm2 (parm1 + parsed)

/-- The body that the four share; `word` is the conversion to `uintptr_t`. -/
def glueStrto {α : Type} (word : α → UInt32) (parse : Parser α) : GlueCall :=
  let m := translateAt W env true parm2 m
  let (ret, parsed) := parse text parm3
  let m := storeEnd parm1 parm2 parsed m
  ⟨word ret, translateAt W env false parm2 m, [parm2, parm2]⟩

/-- `glue_strtol`; `long` has the width of a word. -/
def glueStrtol (strtol : Parser UInt32) : GlueCall := glueStrto W env parm1 parm2 parm3 text m id strtol

/-- `glue_strtoul` -/
def glueStrtoul (strtoul : Parser UInt32) : GlueCall := glueStrto W env parm1 parm2 parm3 text m id strtoul

/-- `glue_strtoll` -/
def glueStrtoll (strtoll : Parser UInt64) : GlueCall :=
  glueStrto W env parm1 parm2 parm3 text m UInt64.toUInt32 strtoll

/-- `glue_strtoull` -/
def glueStrtoull (strtoull : Parser UInt64) : GlueCall :=
  glueStrto W env parm1 parm2 parm3 text m UInt64.toUInt32 strtoull

/-! ## The property -/

/-- A null `endptr`: the application's null, as it is or as an address translated to native. -/
def IsNull : Prop := parm2 = null ∨ parm2 = translate W env true null

instance : Decidable (IsNull W env parm2) := inferInstanceAs (Decidable (_ ∨ _))

/-- The call returns the number `value`, dereferences `endptr` only if it is not null, and changes just the
word there, to the application's address of the byte behind the number. -/
structure Transparent (value : UInt64) (parsed : UInt32) (c : GlueCall) : Prop where
  ret : c.ret.toUInt64 = value
  derefs : IsNull W env parm2 → parm2 ∉ c.derefs
  null : IsNull W env parm2 → c.mem = m
  stored : ¬ IsNull W env parm2 → c.mem = Function.update m parm2 (translate W env false (parm1 + parsed))

end

/-! ## The shared body -/

variable {W : Wamr} {env parm1 parm2 parm3 : Addr} {text : List UInt8} {m : Mem}

/-- The initial content of the word at `endptr` is overwritten. -/
theorem glueStrto_mem {α : Type} {word : α → UInt32} {parse : Parser α} (h : ¬ IsNull W env parm2) :
    (glueStrto W env parm1 parm2 parm3 text m word parse).mem =
      Function.update m parm2 (translate W env false (parm1 + (parse text parm3).2)) := by
  have hne : parm2 ≠ null := fun hp => h (.inl hp)
  unfold glueStrto storeEnd translateAt
  simp only [if_neg hne, Function.update_self, Function.update_idem]

/-- The body is transparent exactly when `endptr` is not null and the number fits a word. -/
theorem glueStrto_transparent_iff {α : Type} {word : α → UInt32} {parse : Parser α} {value : UInt64} :
    Transparent W env parm1 parm2 m value (parse text parm3).2
        (glueStrto W env parm1 parm2 parm3 text m word parse) ↔
      ¬ IsNull W env parm2 ∧ (word (parse text parm3).1).toUInt64 = value := by
  constructor
  · intro h
    exact ⟨fun hnull => h.derefs hnull List.mem_cons_self, h.ret⟩
  · rintro ⟨hnull, hret⟩
    exact ⟨hret, fun h => absurd h hnull, fun h => absurd h hnull, glueStrto_mem⟩

/-- A number is returned whole by way of a word exactly when it is below 2^32. -/
theorem toUInt32_toUInt64_eq_iff (n : UInt64) : n.toUInt32.toUInt64 = n ↔ n < 0x100000000 := by
  rw [← UInt64.toNat_inj, UInt64.lt_iff_toNat_lt]
  simp only [UInt32.toNat_toUInt64, UInt64.toNat_toUInt32]
  show n.toNat % 4294967296 = n.toNat ↔ n.toNat < 4294967296
  omega

/-! ## The four functions -/

/-- The two functions with results of a word are transparent exactly when `endptr` is not null, the two with
results of 64 bits when also the result is below 2^32. -/
theorem strto_transparent_iff (W : Wamr) (env parm1 parm2 parm3 : Addr) (text : List UInt8) (m : Mem)
    (strtol strtoul : Parser UInt32) (strtoll strtoull : Parser UInt64) :
    (Transparent W env parm1 parm2 m (strtol text parm3).1.toUInt64 (strtol text parm3).2
        (glueStrtol W env parm1 parm2 parm3 text m strtol) ↔ ¬ IsNull W env parm2) ∧
      (Transparent W env parm1 parm2 m (strtoul text parm3).1.toUInt64 (strtoul text parm3).2
        (glueStrtoul W env parm1 parm2 parm3 text m strtoul) ↔ ¬ IsNull W env parm2) ∧
      (Transparent W env parm1 parm2 m (strtoll text parm3).1 (strtoll text parm3).2
        (glueStrtoll W env parm1 parm2 parm3 text m strtoll) ↔
          ¬ IsNull W env parm2 ∧ (strtoll text parm3).1 < 0x100000000) ∧
      (Transparent W env parm1 parm2 m (strtoull text parm3).1 (strtoull text parm3).2
        (glueStrtoull W env parm1 parm2 parm3 text m strtoull) ↔
          ¬ IsNull W env parm2 ∧ (strtoull text parm3).1 < 0x100000000) := by
  refine ⟨?_, ?_, ?_, ?_⟩
  · exact glueStrto_transparent_iff.trans (and_iff_left rfl)
  · exact glueStrto_transparent_iff.trans (and_iff_left rfl)
  · exact glueStrto_transparent_iff.trans (and_congr_right fun _ => toUInt32_toUInt64_eq_iff _)
  · exact glueStrto_transparent_iff.trans (and_congr_right fun _ => toUInt32_toUInt64_eq_iff _)

def strtoWamr : Wamr := .linear id fun _ => 0x1000

/-- A result of 2^32 comes back as 0. -/
example (parsed : UInt32) (m : Mem) :
    (glueStrtoll strtoWamr 1 0x2000 0x2400 10 [] m fun _ _ => (0x100000000, parsed)).ret = 0 := rfl

/-- The application passes a null `endptr`, which arrives as the base of its memory. -/
theorem nullEndptr_not_transparent :
    ¬ ∀ (W : Wamr) (env parm1 parm2 parm3 : Addr) (text : List UInt8) (m : Mem) (strtol : Parser UInt32),
      Transparent W env parm1 parm2 m (strtol text parm3).1.toUInt64 (strtol text parm3).2
        (glueStrtol W env parm1 parm2 parm3 text m strtol) := by
  intro h
  have hnull : IsNull strtoWamr 1 0x1000 := by decide
  have htransparent := h strtoWamr 1 0x2000 0x1000 10 [] (fun _ => 0) fun _ _ => (0, 0)
  exact htransparent.derefs hnull List.mem_cons_self

end VelaWasm.LibcBypass
