/-
The ledger of an agent: the resources it has acquired and those it has released, each list with the latest
first. `Holds` says that the two differ by what the agent holds, every acquisition being matched by at most one
release; an agent that holds nothing has released what it acquired, each exactly as often.
-/
import Mathlib.Data.List.Perm.Basic

namespace VelaWasm

structure Ledger (R : Type*) where
  acquired : List R
  released : List R

namespace Ledger

variable {R : Type*} {l : Ledger R} {acquired released held held' : List R}

def empty : Ledger R := ⟨[], []⟩

/-- The ledger after `acquired` and `released`. -/
def record (l : Ledger R) (acquired released : List R) : Ledger R :=
  ⟨acquired ++ l.acquired, released ++ l.released⟩

def Holds (l : Ledger R) (held : List R) : Prop := l.acquired.Perm (l.released ++ held)

theorem holds_empty : (empty : Ledger R).Holds [] := .nil

/-- What is acquired is released at once or held, together with what was held. -/
theorem Holds.record (h : l.Holds held) (hp : (acquired ++ held).Perm (released ++ held')) :
    (l.record acquired released).Holds held' := by
  have hswap : (acquired ++ (l.released ++ held)).Perm (l.released ++ (acquired ++ held)) := by
    rw [← List.append_assoc, ← List.append_assoc]
    exact List.perm_append_comm.append_right held
  have hback : (l.released ++ (released ++ held')).Perm (released ++ l.released ++ held') := by
    rw [← List.append_assoc]
    exact List.perm_append_comm.append_right held'
  show (acquired ++ l.acquired).Perm _
  exact (h.append_left acquired).trans (hswap.trans ((hp.append_left l.released).trans hback))

/-- An agent that holds nothing has released what it acquired. -/
theorem Holds.all_released (h : l.Holds []) : l.released.Perm l.acquired := by
  have := h.symm
  rwa [List.append_nil] at this

end Ledger

end VelaWasm
