/-
The buffer of `glue_snprintf`: what `sprintf_out` has written of it after any characters, and what the last store
adds. The terminating null character comes from the one or from the other, and there is nothing behind it.
-/
import VelaWasm.LibcBypass.Output
import Mathlib.Data.List.Induction

namespace VelaWasm.LibcBypass

/-! ## What is written -/

/-- The character at `i` of a buffer of `size` characters that had `old` there, once `cs` is sent: the last one is
only ever the null character. -/
def sentChar (size : ℕ) (cs : List Char) (i : ℕ) (old : Char) : Char :=
  if i + 1 < size then cs.getD i old else if i + 1 = size ∧ i < cs.length then nul else old

/-- The buffer after `cs`. -/
def sentBuffer (size : ℕ) (cs buf : List Char) : List Char := buf.mapIdx (sentChar size cs)

/-- `glue_sprintf`, with `INT_MAX` for the size -/
def glueSprintf (env : PrintfEnv) (validated : Bool) (str : Option (List Char)) (format : List Char) (vaArgs : Addr) :
    Option (List Char) × Int32 := glueSnprintf env validated str 0x7fffffff format vaArgs

/-- The buffer has the first of the characters, and the null character behind them; everything from `size` on is as
it was. -/
structure WellTerminated (size : ℕ) (cs buf buf' : List Char) : Prop where
  length : buf'.length = buf.length
  first : ∀ i < min cs.length (size - 1), i < buf.length → buf'[i]? = cs[i]?
  ended : 0 < size → min cs.length (size - 1) < buf.length → buf'[min cs.length (size - 1)]? = some nul
  kept : ∀ i, size ≤ i → buf'[i]? = buf[i]?

variable {size : UInt32} {cs buf : List Char} {n i : ℕ} {c old : Char}

/-! ## One character -/

theorem sentChar_concat_ne (h : i ≠ cs.length) : sentChar n (cs ++ [c]) i old = sentChar n cs i old := by
  unfold sentChar
  have hget : (cs ++ [c]).getD i old = cs.getD i old := by
    rw [List.getD_eq_getElem?_getD, List.getD_eq_getElem?_getD]
    by_cases hi : i < cs.length
    · rw [List.getElem?_append_left hi]
    · rw [List.getElem?_eq_none (by simp; omega), List.getElem?_eq_none (by omega)]
  have hlen : i < (cs ++ [c]).length ↔ i < cs.length := by
    rw [List.length_append, List.length_singleton]
    omega
  rw [hget]
  simp only [hlen]

theorem sentChar_concat_self : sentChar n (cs ++ [c]) cs.length old =
    if cs.length < n then (if cs.length + 1 = n then nul else c) else sentChar n cs cs.length old := by
  unfold sentChar
  have hget : (cs ++ [c]).getD cs.length old = c := by simp
  have hold : cs.getD cs.length old = old := by simp
  have hlen : cs.length < (cs ++ [c]).length := by simp
  rw [hget, hold]
  split_ifs <;> first | rfl | omega

theorem getElem?_sentBuffer (i : ℕ) : (sentBuffer n cs buf)[i]? = buf[i]?.map (sentChar n cs i) :=
  List.getElem?_mapIdx

theorem getElem?_set_map (l : List Char) (k : ℕ) (x : Char) : (l.set k x)[k]? = l[k]?.map fun _ => x := by
  rw [List.getElem?_set_self']
  rfl

/-- One character more changes its own place at most. -/
theorem sentBuffer_concat : sentBuffer n (cs ++ [c]) buf =
    if cs.length < n then (sentBuffer n cs buf).set cs.length (if cs.length + 1 = n then nul else c)
    else sentBuffer n cs buf := by
  refine List.ext_getElem? fun i => ?_
  rw [getElem?_sentBuffer]
  by_cases hi : i = cs.length
  · subst hi
    by_cases hlt : cs.length < n
    · rw [if_pos hlt, getElem?_set_map, getElem?_sentBuffer, Option.map_map]
      refine Option.map_congr fun old _ => ?_
      rw [sentChar_concat_self, if_pos hlt]
      rfl
    · rw [if_neg hlt, getElem?_sentBuffer]
      refine Option.map_congr fun old _ => ?_
      rw [sentChar_concat_self, if_neg hlt]
  · have hkeep : buf[i]?.map (sentChar n (cs ++ [c]) i) = (sentBuffer n cs buf)[i]? := by
      rw [getElem?_sentBuffer]
      exact Option.map_congr fun old _ => sentChar_concat_ne hi
    rw [hkeep]
    split_ifs
    · rw [List.getElem?_set_ne (Ne.symm hi)]
    · rw [List.getElem?_set_ne (Ne.symm hi)]
    · rfl

/-! ## A run -/

theorem toNat_count (h : cs.length < 2 ^ 32) : (UInt32.ofNat cs.length).toNat = cs.length :=
  UInt32.toNat_ofNat_of_lt' h

/-- `ctx->count < ctx->max` -/
theorem count_lt_iff (h : cs.length < 2 ^ 32) : UInt32.ofNat cs.length < size ↔ cs.length < size.toNat := by
  rw [UInt32.lt_iff_toNat_lt, toNat_count h]

/-- `sprintf_out` after the characters `cs`. -/
theorem sprintfOut_sent (h : cs.length < 2 ^ 32) :
    sprintfOut ⟨some (sentBuffer size.toNat cs buf), size, UInt32.ofNat cs.length⟩ c =
      ⟨some (sentBuffer size.toNat (cs ++ [c]) buf), size, UInt32.ofNat (cs ++ [c]).length⟩ := by
  have hcount : UInt32.ofNat cs.length + 1 = UInt32.ofNat (cs ++ [c]).length := by
    rw [List.length_append, List.length_singleton, UInt32.ofNat_add]
    rfl
  rw [sentBuffer_concat]
  unfold sprintfOut
  by_cases hlt : cs.length < size.toNat
  · have hroom : ¬ (size ≤ UInt32.ofNat cs.length) := UInt32.not_le.2 ((count_lt_iff h).2 hlt)
    have hlast : UInt32.ofNat cs.length = size - 1 ↔ cs.length + 1 = size.toNat := by
      have hone : (1 : UInt32).toNat = 1 := rfl
      have hle : (1 : UInt32) ≤ size := by
        rw [UInt32.le_iff_toNat_le, hone]
        omega
      rw [← UInt32.toNat_inj, toNat_count h, UInt32.toNat_sub_of_le _ _ hle, hone]
      omega
    simp only [reduceCtorEq, hroom, or_self, if_false, if_pos hlt, hcount, hlast, toNat_count h, Option.map_some]
  · have hfull : size ≤ UInt32.ofNat cs.length := UInt32.not_lt.1 fun hn => hlt ((count_lt_iff h).1 hn)
    simp only [hfull, or_true, if_true, if_neg hlt, hcount]

/-- All characters of a run. -/
theorem foldl_sprintfOut (h : cs.length < 2 ^ 32) : cs.foldl sprintfOut ⟨some buf, size, 0⟩ =
    ⟨some (sentBuffer size.toNat cs buf), size, UInt32.ofNat cs.length⟩ := by
  induction cs using List.reverseRecOn with
  | nil =>
    have hsame : sentBuffer size.toNat [] buf = buf := by
      refine List.ext_getElem? fun i => ?_
      rw [getElem?_sentBuffer]
      have hid : sentChar size.toNat [] i = id := by
        funext old
        simp [sentChar]
      rw [hid, Option.map_id]
      rfl
    rw [hsame]
    rfl
  | append_singleton cs c ih =>
    have hlt : cs.length < 2 ^ 32 := by
      rw [List.length_append] at h
      exact Nat.lt_of_le_of_lt (Nat.le_add_right _ _) h
    rw [List.foldl_append, ih hlt]
    exact sprintfOut_sent hlt

/-- The buffer with the last store. -/
theorem wellTerminated_final : WellTerminated n cs buf
    (if cs.length < n then (sentBuffer n cs buf).set cs.length nul else sentBuffer n cs buf) := by
  have hother : ∀ i ≠ cs.length,
      (if cs.length < n then (sentBuffer n cs buf).set cs.length nul else sentBuffer n cs buf)[i]? =
        buf[i]?.map (sentChar n cs i) := by
    intro i hi
    rw [← getElem?_sentBuffer]
    split_ifs
    · exact List.getElem?_set_ne (Ne.symm hi)
    · rfl
  constructor
  · split_ifs <;> simp [sentBuffer]
  · intro i hi hb
    have hlen : i < cs.length := by omega
    rw [hother i (by omega), List.getElem?_eq_getElem hb, List.getElem?_eq_getElem hlen, Option.map_some, sentChar,
      if_pos (by omega), List.getD_eq_getElem _ _ hlen]
  · intro hn hb
    by_cases hlt : cs.length < n
    · rw [if_pos hlt, show min cs.length (n - 1) = cs.length by omega] at *
      rw [getElem?_set_map, getElem?_sentBuffer, List.getElem?_eq_getElem hb]
      rfl
    · rw [hother _ (by omega), List.getElem?_eq_getElem hb, Option.map_some, sentChar, if_neg (by omega),
        if_pos (by omega)]
  · intro i hi
    have hkeep : ∀ old, sentChar n cs i old = old := by
      intro old
      rw [sentChar, if_neg (by omega), if_neg (by omega)]
    by_cases hlt : cs.length < n
    · rw [hother i (by omega), show sentChar n cs i = id from funext hkeep, Option.map_id]
      rfl
    · rw [if_neg hlt, getElem?_sentBuffer, show sentChar n cs i = id from funext hkeep, Option.map_id]
      rfl

/-- What a run that succeeds makes of the buffer, and what is returned. -/
theorem glueSnprintf_done {env : PrintfEnv} {format : List Char} {vaArgs : Addr} {evs : List PrintfEvent}
    (h : vprintfWa env format vaArgs = (evs, .done)) (hlen : (outs evs).length < 2 ^ 32) (buf : List Char)
    (size : UInt32) : glueSnprintf env true (some buf) size format vaArgs =
      (some (if (outs evs).length < size.toNat then (sentBuffer size.toNat (outs evs) buf).set (outs evs).length nul
        else sentBuffer size.toNat (outs evs) buf), (UInt32.ofNat (outs evs).length).toInt32) := by
  unfold glueSnprintf
  simp only [h, if_true, foldl_sprintfOut hlen, count_lt_iff hlen, toNat_count hlen, Option.map_some]
  split_ifs <;> rfl

/-- After a run that succeeds the buffer has as much of the output as its size admits, terminated, and the number
returned is the length of the output, as a 32-bit word. -/
theorem snprintf_wellTerminated {env : PrintfEnv} {format : List Char} {vaArgs : Addr} {evs : List PrintfEvent}
    (h : vprintfWa env format vaArgs = (evs, .done)) (hlen : (outs evs).length < 2 ^ 32) (buf : List Char)
    (size : UInt32) :
    ∃ buf', (glueSnprintf env true (some buf) size format vaArgs).1 = some buf' ∧
      WellTerminated size.toNat (outs evs) buf buf' ∧
      (glueSnprintf env true (some buf) size format vaArgs).2.toUInt32.toNat = (outs evs).length := by
  rw [glueSnprintf_done h hlen]
  exact ⟨_, rfl, wellTerminated_final, toNat_count hlen⟩

/-- `glue_sprintf` terminates all of a shorter output. -/
theorem sprintf_wellTerminated {env : PrintfEnv} {format : List Char} {vaArgs : Addr} {evs : List PrintfEvent}
    (h : vprintfWa env format vaArgs = (evs, .done)) (hlen : (outs evs).length < 2 ^ 31 - 1) {buf : List Char}
    (hbuf : (outs evs).length < buf.length) :
    ∃ buf', (glueSprintf env true (some buf) format vaArgs).1 = some buf' ∧
      buf'.take ((outs evs).length + 1) = outs evs ++ [nul] := by
  have hterm : WellTerminated (0x7fffffff : UInt32).toNat (outs evs) buf _ := wellTerminated_final
  refine ⟨_, congrArg Prod.fst (glueSnprintf_done h (by omega) buf 0x7fffffff), List.ext_getElem? fun i => ?_⟩
  have hmin : min (outs evs).length ((0x7fffffff : UInt32).toNat - 1) = (outs evs).length := by
    have hmax : (0x7fffffff : UInt32).toNat = 2 ^ 31 - 1 := rfl
    omega
  rcases Nat.lt_trichotomy i (outs evs).length with hi | hi | hi
  · rw [List.getElem?_take_of_lt (by omega), List.getElem?_append_left hi]
    exact hterm.first i (by omega) (by omega)
  · subst hi
    rw [List.getElem?_take_of_lt (by omega)]
    have := hterm.ended (by decide) (by omega)
    rw [hmin] at this
    rw [this]
    simp
  · rw [List.getElem?_eq_none (by simp; omega), List.getElem?_eq_none (by simp; omega)]

/-- Two characters of three fit into a buffer of size 3 with the terminator. -/
theorem snprintf_wellTerminated_cut :
    ∃ buf', (glueSnprintf (outputEnv []) true (some "xxxxx".toList) 3 "abc".toList 0x2000).1 = some buf' ∧
      WellTerminated 3 "abc".toList "xxxxx".toList buf' ∧
      (glueSnprintf (outputEnv []) true (some "xxxxx".toList) 3 "abc".toList 0x2000).2.toUInt32.toNat = 3 := by
  have hrun : vprintfWa (outputEnv []) "abc".toList 0x2000 = ([.out 'a', .out 'b', .out 'c'], .done) := by decide
  exact snprintf_wellTerminated hrun (by decide) "xxxxx".toList 3

end VelaWasm.LibcBypass
