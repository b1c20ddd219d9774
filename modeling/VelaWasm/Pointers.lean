/-
Addresses of the application that stand for native ones. The translation moves null like every other address, so a
pointer that is null on one side is null on the other only where the bridge says so.
-/
import VelaWasm.Wamr
import Mathlib.Logic.Function.Basic

namespace VelaWasm

variable (W : Wamr) (env : Addr)

/-- The native address that the application means. -/
def meant (a : Addr) : Addr := if a = null then null else translate W env true a

/-- The address that the application reads it under. -/
def readAs (n : Addr) : Addr := if n = null then null else translate W env false n

/-- The app address `a` stands for the native address `n`, and null for null. -/
def Denotes (a n : Addr) : Prop := (a = null ↔ n = null) ∧ (n ≠ null → translate W env true a = n)

instance (a n : Addr) : Decidable (Denotes W env a n) := inferInstanceAs (Decidable (_ ∧ _))

/-- The application has an address for the pointer, other than that of null. -/
def Shown (n : Addr) : Prop := n = null ∨ translate W env false n ≠ null

instance (n : Addr) : Decidable (Shown W env n) := inferInstanceAs (Decidable (_ ∨ _))

variable {W env} {a n : Addr}

theorem meant_eq : (if a = null then null else translate W env true a) = meant W env a := rfl

theorem denotes_meant_iff : Denotes W env a (meant W env a) ↔ a = null ∨ translate W env true a ≠ null := by
  rw [Denotes, meant]
  by_cases ha : a = null
  · simp [ha]
  · simp [ha]

theorem meant_of_denotes (h : Denotes W env a n) : meant W env a = n := by
  rw [meant]
  split_ifs with ha
  · exact (h.1.1 ha).symm
  · exact h.2 (mt h.1.2 ha)

/-- An address of the application stands for one native address, and is the only one that does. -/
theorem Denotes.eq_readAs (hleft : Function.LeftInverse (translate W env false) (translate W env true))
    (h : Denotes W env a n) : a = readAs W env n := by
  rw [readAs]
  split_ifs with hn
  · exact h.1.2 hn
  · rw [← h.2 hn, hleft a]

theorem denotes_readAs_iff (hright : Function.RightInverse (translate W env false) (translate W env true)) :
    Denotes W env (readAs W env n) n ↔ Shown W env n := by
  rw [readAs, Denotes, Shown]
  by_cases hn : n = null
  · simp [hn]
  · simp [hn, hright n]

theorem denotes_translate_iff (hright : Function.RightInverse (translate W env false) (translate W env true)) :
    Denotes W env (translate W env false n) n ↔ (translate W env false n = null ↔ n = null) :=
  ⟨And.left, fun h => ⟨h, fun _ => hright n⟩⟩

/-- A parameter is `addr_app` where the application passes null. -/
theorem translate_eq_base_iff (hleft : Function.LeftInverse (translate W env false) (translate W env true)) :
    translate W env true a = translate W env true null ↔ a = null := hleft.injective.eq_iff

end VelaWasm
