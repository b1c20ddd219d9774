/-
Lists that native code builds and an application gets and hands back: the interfaces of `glue_getifaddrs`, which
`glue_freeifaddrs` frees, and the string arrays of `glue_dbus_connection_list_registered`, which
`glue_dbus_free_string_array` frees. The walk to the application follows the native links before it translates
them, the walk back those that it has just translated, and each undoes the other.
-/
import VelaWasm.Dbus.ArgsRoundTrip
import VelaWasm.Lib.Chain
import VelaWasm.LibcBypass.ListCalls
import VelaWasm.LibcBypass.Scanf

namespace VelaWasm.LibcBypass

open VelaWasm.Chain VelaWasm.Dbus VelaWasm.InPlace

/-! ## The way back -/

section

variable (W : Wamr) (env : Addr)

/-- The pointers of a list node, translated back one after the other. -/
def fieldsToNative (cur : Addr) : List UInt32 → Mem → Mem
  | [], m => m
  | field :: fields, m => fieldsToNative cur fields (translateAt W env true (cur + field) m)

/-- The loop back over a list, for at most `fuel` nodes. It ends at the last node, without translating the null
there. -/
def listToNative (fields : List UInt32) (next : UInt32) : ℕ → Addr → Mem → Option Mem
  | fuel, cur, m =>
    if cur = null then some m
    else
      match fuel with
      | 0 => none
      | fuel + 1 =>
        let m := fieldsToNative W env cur fields m
        if m (cur + next) = null then some m
        else
          let m := translateAt W env true (cur + next) m
          listToNative fields next fuel (m (cur + next)) m

/-- `ifaddrsinfo2native` -/
def ifaddrsinfo2native (o : Ifaddrs) : ℕ → Addr → Mem → Option Mem :=
  listToNative W env [o.ifaBroadaddr, o.ifaAddr, o.ifaData, o.ifaName, o.ifaNetmask] o.ifaNext

/-- `glue_freeifaddrs`: what it calls `freeifaddrs` with, and on which memory. The test of `parm1` comes too late
for `addr`. -/
def glueFreeifaddrs (o : Ifaddrs) (fuel : ℕ) (parm1 : Addr) (m : Mem) : Option (Addr × Mem) :=
  let addr := parm1
  (ifaddrsinfo2native W env o fuel addr m).map fun m => (addr, m)

/-- `string_array_app_to_native` -/
def stringArrayAppToNative (parm : Addr) (m : Mem) : Option Mem :=
  if parm = null then some m else convPointers W env true (wordsFrom parm) parm m

/-- `string_array_native_to_app` -/
def stringArrayNativeToApp (p2 : Addr) (m : Mem) : Option Mem :=
  if p2 = null then some m else convPointers W env false (wordsFrom p2) p2 m

/-- `glue_dbus_connection_list_registered` -/
def glueDbusConnectionListRegistered (listRegistered : Native) (parm1 parm2 parm3 : Addr) (m : Mem) :
    Option (UInt32 × Mem) :=
  let (ret, m) := listRegistered [parm1, parm2, parm3] m
  (stringArrayNativeToApp W env (m parm3) m).map fun m => (ret, translateAt W env false parm3 m)

/-- `glue_dbus_free_string_array`: what it calls `dbus_free_string_array` with, and on which memory. -/
def glueDbusFreeStringArray (parm1 : Addr) (m : Mem) : Option (Addr × Mem) :=
  (stringArrayAppToNative W env parm1 m).map fun m => (parm1, m)

end

/-! ## Nodes and their pointers -/

/-- Where the pointers of the nodes stand. -/
def slots (fields : List UInt32) (next : UInt32) (nodes : List Addr) : List Addr :=
  nodes.flatMap fun a => (fields ++ [next]).map (a + ·)

/-- The pointers of an interface list. -/
def Ifaddrs.slots (o : Ifaddrs) : List Addr → List Addr :=
  LibcBypass.slots [o.ifaBroadaddr, o.ifaAddr, o.ifaName, o.ifaData, o.ifaNetmask] o.ifaNext

variable {W : Wamr} {env cur : Addr} {fields fields' : List UInt32} {next : UInt32} {nodes : List Addr}
  {m m' native : Mem} {fuel : ℕ}

theorem slots_cons (a : Addr) : slots fields next (a :: nodes) =
    (fields.map (a + ·) ++ [a + next]) ++ slots fields next nodes := by
  rw [slots, List.flatMap_cons, List.map_append]
  rfl

theorem slots_perm (h : fields.Perm fields') (nodes : List Addr) :
    (slots fields next nodes).Perm (slots fields' next nodes) :=
  List.Perm.flatMap_left _ fun a _ => (h.append_right [next]).map (a + ·)

theorem next_mem_slots {a : Addr} (h : a ∈ nodes) : a + next ∈ slots fields next nodes :=
  List.mem_flatMap.2 ⟨a, h, List.mem_map.2 ⟨next, by simp, rfl⟩⟩

theorem fieldsToApp_eq : fieldsToApp W env cur fields m = applyAll (translate W env false) (fields.map (cur + ·)) m := by
  induction fields generalizing m with
  | nil => rfl
  | cons field fields ih => exact ih

theorem fieldsToNative_eq :
    fieldsToNative W env cur fields m = applyAll (translate W env true) (fields.map (cur + ·)) m := by
  induction fields generalizing m with
  | nil => rfl
  | cons field fields ih => exact ih

/-- The walk to the application translates each pointer of each node once. -/
theorem listToApp_eq (h : Linked null (fun a => m (a + next)) cur nodes) (hd : (slots fields next nodes).Nodup)
    (hf : nodes.length ≤ fuel) :
    listToApp W env fields next fuel cur m = some (applyAll (translate W env false) (slots fields next nodes) m) := by
  induction nodes generalizing cur m fuel with
  | nil =>
    rw [show cur = null from h]
    exact listToApp_null _ _ _
  | cons a nodes ih =>
    have hcur : cur = a := h.1
    subst hcur
    obtain ⟨fuel, rfl⟩ := Nat.exists_eq_add_of_lt hf
    rw [slots_cons] at hd ⊢
    obtain ⟨hnode, hrest, hapart⟩ := List.nodup_append'.1 hd
    have hnext : cur + next ∉ fields.map (cur + ·) := fun hm =>
      (List.nodup_append'.1 hnode).2.2 hm (List.mem_singleton_self _)
    have hlink : applyAll (translate W env false) (fields.map (cur + ·)) m (cur + next) = m (cur + next) :=
      applyAll_of_notMem hnext
    rw [listToApp, if_neg h.2.1]
    simp only [fieldsToApp_eq]
    rw [hlink, applyAll_append, applyAll_append]
    refine ih (h.tail.congr fun b hb => ?_) hrest (by omega)
    -- the links of the other nodes are not among the pointers of this one
    have hb' : b + next ∉ fields.map (cur + ·) ++ [cur + next] := fun hm => hapart hm (next_mem_slots hb)
    have hkeep : applyAll (translate W env false) (fields.map (cur + ·) ++ [cur + next]) m (b + next) = m (b + next) :=
      applyAll_of_notMem hb'
    rwa [applyAll_append] at hkeep

/-- Translating words back that were translated. -/
theorem applyAll_back (hinv : Function.LeftInverse (translate W env true) (translate W env false)) {ps : List Addr}
    (hd : ps.Nodup) (hm : ∀ q ∈ ps, m q = translate W env false (native q)) (q : Addr) :
    applyAll (translate W env true) ps m q = if q ∈ ps then native q else m q := by
  rw [applyAll_of_nodup hd]
  split_ifs with hq
  · rw [hm q hq, hinv]
  · rfl

section

variable (hinv : Function.LeftInverse (translate W env true) (translate W env false))
  (hnull : ∀ a, translate W env false a = null ↔ a = null)

include hinv hnull

/-- The walk back at the last node leaves its null link as it is. -/
theorem listToNative_last (hcur : cur ≠ null) (hnode : (fields.map (cur + ·) ++ [cur + next]).Nodup)
    (hm : ∀ q ∈ fields.map (cur + ·) ++ [cur + next], m q = translate W env false (native q))
    (hlast : native (cur + next) = null) :
    ∃ m', listToNative W env fields next (fuel + 1) cur m = some m' ∧
      ∀ q, m' q = if q ∈ fields.map (cur + ·) ++ [cur + next] then native q else m q := by
  obtain ⟨hfields, -, hapart⟩ := List.nodup_append'.1 hnode
  have hnext : cur + next ∉ fields.map (cur + ·) := fun hm => hapart hm (List.mem_singleton_self _)
  have hzero : m (cur + next) = null := (hm _ (by simp)).trans ((hnull _).2 hlast)
  have hlink : applyAll (translate W env true) (fields.map (cur + ·)) m (cur + next) = m (cur + next) :=
    applyAll_of_notMem hnext
  rw [listToNative, if_neg hcur]
  simp only [fieldsToNative_eq, hlink]
  refine ⟨_, if_pos hzero, fun q => ?_⟩
  rw [applyAll_back hinv hfields fun q hq => hm q (List.mem_append_left _ hq)]
  by_cases hq : q = cur + next
  · subst hq
    rw [if_neg hnext, if_pos (by simp), hzero, hlast]
  · exact if_congr (by simp [hq]) rfl rfl

/-- At any other node it goes on to the next one. -/
theorem listToNative_cons (fuel : ℕ) (hcur : cur ≠ null) (hnode : (fields.map (cur + ·) ++ [cur + next]).Nodup)
    (hm : ∀ q ∈ fields.map (cur + ·) ++ [cur + next], m q = translate W env false (native q))
    (hmore : native (cur + next) ≠ null) :
    ∃ m', listToNative W env fields next (fuel + 1) cur m =
        listToNative W env fields next fuel (native (cur + next)) m' ∧
      ∀ q, m' q = if q ∈ fields.map (cur + ·) ++ [cur + next] then native q else m q := by
  obtain ⟨-, -, hapart⟩ := List.nodup_append'.1 hnode
  have hnext : cur + next ∉ fields.map (cur + ·) := fun hm => hapart hm (List.mem_singleton_self _)
  have hsome : m (cur + next) ≠ null := fun hn => hmore ((hnull _).1 ((hm _ (by simp)).symm.trans hn))
  have hlink : applyAll (translate W env true) (fields.map (cur + ·)) m (cur + next) = m (cur + next) :=
    applyAll_of_notMem hnext
  have hback : ∀ q, translateAt W env true (cur + next) (applyAll (translate W env true) (fields.map (cur + ·)) m) q =
      if q ∈ fields.map (cur + ·) ++ [cur + next] then native q else m q := by
    intro q
    rw [← applyAll_back hinv hnode hm, applyAll_append]
    rfl
  refine ⟨_, ?_, hback⟩
  rw [listToNative, if_neg hcur]
  simp only [fieldsToNative_eq, hlink]
  rw [if_neg hsome, hback, if_pos (by simp)]

/-- The walk back over the same nodes, each pointer of which is the translation of a native one, leaves the
native pointers and every other word as it was. -/
theorem listToNative_restores
    (h : Linked null (fun a => native (a + next)) cur nodes) (hd : (slots fields next nodes).Nodup)
    (hm : ∀ q ∈ slots fields next nodes, m q = translate W env false (native q)) (hf : nodes.length ≤ fuel) :
    ∃ m', listToNative W env fields next fuel cur m = some m' ∧
      ∀ q, m' q = if q ∈ slots fields next nodes then native q else m q := by
  induction nodes generalizing cur m fuel with
  | nil =>
    refine ⟨m, ?_, fun q => (if_neg (by simp [slots])).symm⟩
    unfold listToNative
    rw [if_pos (show cur = null from h)]
  | cons a nodes ih =>
    have hcur : cur = a := h.1
    subst hcur
    obtain ⟨fuel, rfl⟩ := Nat.exists_eq_add_of_lt hf
    rw [slots_cons] at hd hm
    obtain ⟨hnode, hrest, hapart⟩ := List.nodup_append'.1 hd
    have hmNode : ∀ q ∈ fields.map (cur + ·) ++ [cur + next], m q = translate W env false (native q) :=
      fun q hq => hm q (List.mem_append_left _ hq)
    by_cases hlast : native (cur + next) = null
    · have hnodes : nodes = [] := h.tail.eq_nil_iff.2 hlast
      subst hnodes
      rw [slots_cons, show slots fields next [] = [] from rfl, List.append_nil]
      exact listToNative_last hinv hnull h.2.1 hnode hmNode hlast
    · obtain ⟨m₁, hstep, hback⟩ := listToNative_cons hinv hnull (nodes.length + fuel) h.2.1 hnode hmNode hlast
      -- the pointers of the other nodes are not translated yet
      have hstill : ∀ q ∈ slots fields next nodes, m₁ q = translate W env false (native q) := by
        intro q hq
        rw [hback, if_neg fun hn => hapart hn hq]
        exact hm q (List.mem_append_right _ hq)
      obtain ⟨m', hm', heq⟩ := ih h.tail hrest hstill (Nat.le_add_right _ fuel)
      refine ⟨m', hstep.trans hm', fun q => ?_⟩
      rw [heq, hback, slots_cons]
      by_cases hq : q ∈ slots fields next nodes
      · rw [if_pos hq, if_pos (List.mem_append_right _ hq)]
      · rw [if_neg hq]
        exact if_congr (by simp [hq]) rfl rfl

end

/-! ## Round trips -/

/-- The result variable `parm1` of `getifaddrs` leads to the list, none of whose pointers overlap. -/
structure InterfaceList (o : Ifaddrs) (m : Mem) (parm1 : Addr) (nodes : List Addr) : Prop where
  linked : Linked null (fun a => m (a + o.ifaNext)) (m parm1) nodes
  apart : (parm1 :: o.slots nodes).Nodup

/-- The result variable `parm3` of `dbus_connection_list_registered` leads to the array, which ends with a NULL
behind `words`. -/
structure StringArray (m : Mem) (parm3 : Addr) (words : List Addr) : Prop where
  walked : walked m (m parm3) = some words
  apart : parm3 ∉ words ++ [argAddr (m parm3) words.length]

section

variable (W : Wamr) (env : Addr)

/-- `glue_getifaddrs` gives the application the native list that `m` has, and `glue_freeifaddrs` gives it back,
whatever else the application has changed. -/
def InterfacesSurvive (o : Ifaddrs) (getifaddrs : Native) (fuel : ℕ) (parm1 : Addr) (nodes : List Addr)
    (before m : Mem) (ret : UInt32) : Prop :=
  ∃ app, glueGetifaddrs W env o getifaddrs fuel parm1 before = some (ret, app) ∧
    app parm1 = translate W env false (m parm1) ∧
    (∀ q ∈ o.slots nodes, app q = translate W env false (m q)) ∧
    ∀ later : Mem, (∀ q ∈ o.slots nodes, later q = app q) →
      ∃ freed, glueFreeifaddrs W env o fuel (translate W env true (app parm1)) later = some (m parm1, freed) ∧
        ∀ q, freed q = if q ∈ o.slots nodes then m q else later q

/-- The same for the array of `glue_dbus_connection_list_registered`. -/
def StringsSurvive (listRegistered : Native) (parm1 parm2 parm3 : Addr) (words : List Addr) (before m : Mem)
    (ret : UInt32) : Prop :=
  ∃ app, glueDbusConnectionListRegistered W env listRegistered parm1 parm2 parm3 before = some (ret, app) ∧
    app parm3 = translate W env false (m parm3) ∧
    (∀ q ∈ words, app q = translate W env false (m q)) ∧
    ∀ later : Mem, (∀ q ∈ words ++ [argAddr (m parm3) words.length], later q = app q) →
      ∃ freed, glueDbusFreeStringArray W env (translate W env true (app parm3)) later = some (m parm3, freed) ∧
        ∀ q, freed q = if q ∈ words then m q else later q

end

theorem interfaces_survive (hinv : Function.LeftInverse (translate W env true) (translate W env false))
    (hnull : ∀ a, translate W env false a = null ↔ a = null) {o : Ifaddrs} {getifaddrs : Native} {parm1 : Addr}
    {before : Mem} {ret : UInt32} (hnative : getifaddrs [parm1] before = (ret, m))
    (hl : InterfaceList o m parm1 nodes) (hf : nodes.length ≤ fuel) :
    InterfacesSurvive W env o getifaddrs fuel parm1 nodes before m ret := by
  obtain ⟨hvar, hd⟩ := List.nodup_cons.1 hl.apart
  have hd' : (slots [o.ifaBroadaddr, o.ifaAddr, o.ifaData, o.ifaName, o.ifaNetmask] o.ifaNext nodes).Perm
      (o.slots nodes) := slots_perm (by grind) nodes
  have hwalk : ifaddrsinfo2app W env o fuel (m parm1) m = some (applyAll (translate W env false) (o.slots nodes) m) :=
    listToApp_eq hl.linked hd hf
  have hother : applyAll (translate W env false) (o.slots nodes) m parm1 = m parm1 := applyAll_of_notMem hvar
  refine ⟨translateAt W env false parm1 (applyAll (translate W env false) (o.slots nodes) m), ?_, ?_, ?_, ?_⟩
  · simp only [glueGetifaddrs, hnative, hwalk, Option.map_some]
  · rw [translateAt, Function.update_self, hother]
  · intro q hq
    rw [translateAt_of_ne (ne_of_mem_of_not_mem hq hvar), applyAll_of_nodup hd, if_pos hq]
  · intro later hlater
    have hm : ∀ q ∈ slots [o.ifaBroadaddr, o.ifaAddr, o.ifaData, o.ifaName, o.ifaNetmask] o.ifaNext nodes,
        later q = translate W env false (m q) := by
      intro q hq
      have hq' : q ∈ o.slots nodes := hd'.mem_iff.1 hq
      rw [hlater q hq', translateAt_of_ne (ne_of_mem_of_not_mem hq' hvar), applyAll_of_nodup hd, if_pos hq']
    obtain ⟨freed, hfreed, heq⟩ := listToNative_restores hinv hnull hl.linked (hd'.nodup_iff.2 hd) hm hf
    refine ⟨freed, ?_, fun q => (heq q).trans (if_congr hd'.mem_iff rfl rfl)⟩
    rw [translateAt, Function.update_self, hother, hinv]
    simp only [glueFreeifaddrs, ifaddrsinfo2native, hfreed, Option.map_some]

theorem strings_survive (hinv : Function.LeftInverse (translate W env true) (translate W env false))
    (hnull : ∀ a, translate W env false a = null ↔ a = null) {listRegistered : Native} {parm1 parm2 parm3 : Addr}
    {words : List Addr} {before : Mem} {ret : UInt32} (hnative : listRegistered [parm1, parm2, parm3] before = (ret, m))
    (ha : StringArray m parm3 words) : StringsSurvive W env listRegistered parm1 parm2 parm3 words before m ret := by
  have hvar : parm3 ∉ words := fun h => ha.apart (List.mem_append_left _ h)
  have hd : words.Nodup := nodup_walked ha.walked
  have hother : applyAll (translate W env false) words m parm3 = m parm3 := applyAll_of_notMem hvar
  have hwalk : stringArrayNativeToApp W env (m parm3) m = some (applyAll (translate W env false) words m) := by
    show scanfEnd W env (m parm3) m = _
    rw [scanfEnd_eq, ha.walked]
    rfl
  refine ⟨translateAt W env false parm3 (applyAll (translate W env false) words m), ?_, ?_, ?_, ?_⟩
  · simp only [glueDbusConnectionListRegistered, hnative, hwalk, Option.map_some]
  · rw [translateAt, Function.update_self, hother]
  · intro q hq
    rw [translateAt_of_ne (ne_of_mem_of_not_mem hq hvar), applyAll_of_nodup hd, if_pos hq]
  · intro later hlater
    have hm : ∀ q ∈ words ++ [argAddr (m parm3) words.length],
        later q = if q ∈ words then translate W env false (m q) else m q := by
      intro q hq
      rw [hlater q hq, translateAt_of_ne (ne_of_mem_of_not_mem hq ha.apart), applyAll_of_nodup hd]
    have hback := applyAll_back hinv hd fun q hq => (hm q (List.mem_append_left _ hq)).trans (if_pos hq)
    refine ⟨applyAll (translate W env true) words later, ?_, hback⟩
    have hsame : walked later (m parm3) = some words := by
      have h := ha.walked
      unfold walked at h ⊢
      split_ifs at h ⊢
      · exact h
      · have hend := nonzeroWords_end h
        refine nonzeroWords_of_zero h (fun q hq => ?_) ?_
        · rw [hm q (List.mem_append_left _ hq), if_pos hq]
          exact fun hz => nonzeroWords_ne_zero h hq ((hnull _).1 hz)
        · rw [hm _ (by simp), if_neg fun hn => nonzeroWords_ne_zero h hn hend, hend]
    rw [translateAt, Function.update_self, hother, hinv]
    show (scanfBegin W env (m parm3) later).map _ = _
    rw [scanfBegin_eq, hsame]
    rfl

/-- Both kinds of lists get to the application with every pointer translated, and back as they were. -/
theorem resultLists_survive (hinv : Function.LeftInverse (translate W env true) (translate W env false))
    (hnull : ∀ a, translate W env false a = null ↔ a = null) {o : Ifaddrs} {getifaddrs listRegistered : Native}
    {var parm1 parm2 parm3 : Addr} {words : List Addr} {before mi ma : Mem} {ri ra : UInt32}
    (hi : getifaddrs [var] before = (ri, mi)) (hl : InterfaceList o mi var nodes) (hf : nodes.length ≤ fuel)
    (hr : listRegistered [parm1, parm2, parm3] before = (ra, ma)) (ha : StringArray ma parm3 words) :
    InterfacesSurvive W env o getifaddrs fuel var nodes before mi ri ∧
      StringsSurvive W env listRegistered parm1 parm2 parm3 words before ma ra :=
  ⟨interfaces_survive hinv hnull hi hl hf, strings_survive hinv hnull hr ha⟩

theorem nullWamr_eq_null {base : UInt32} (h : base ≠ 0) (env a : Addr) :
    translate (nullWamr base) env false a = null ↔ a = null := by
  simp only [translate, nullWamr, Bool.false_eq_true, if_false, null]
  grind

/-- The offsets in a `struct ifaddrs` of the target. -/
def ifaddrsOffsets : Ifaddrs := ⟨20, 12, 4, 24, 16, 0⟩

/-- Two interfaces at 0x5000 and 0x5040, the second one without an address. -/
def twoInterfacesMem : Mem := fun p =>
  if p = 0x2000 then 0x5000
  else if p = 0x5000 then 0x5040
  else if p = 0x5004 then 0x6000
  else if p = 0x500c then 0x6010
  else if p = 0x5044 then 0x6020
  else 0

/-- An array of two strings at 0x7000. -/
def twoStringsMem : Mem := fun p =>
  if p = 0x2000 then 0x7000 else if p = 0x7000 then 0x7010 else if p = 0x7004 then 0x7020 else 0

theorem resultLists_survive_two :
    InterfacesSurvive (nullWamr 0x1000) 1 ifaddrsOffsets (fun _ _ => (0, twoInterfacesMem)) 2 0x2000 [0x5000, 0x5040]
        (fun _ => 0) twoInterfacesMem 0 ∧
      StringsSurvive (nullWamr 0x1000) 1 (fun _ _ => (1, twoStringsMem)) 0x1800 0x1900 0x2000 [0x7000, 0x7004]
        (fun _ => 0) twoStringsMem 1 := by
  have hlist : InterfaceList ifaddrsOffsets twoInterfacesMem 0x2000 [0x5000, 0x5040] :=
    ⟨⟨rfl, by decide, rfl, by decide, rfl⟩, by decide⟩
  have harray : StringArray twoStringsMem 0x2000 [0x7000, 0x7004] := ⟨rfl, by decide⟩
  exact resultLists_survive (nullWamr_rightInverse (by decide) 1) (nullWamr_eq_null (by decide) 1) rfl hlist
    (Nat.le_refl 2) rfl harray

end VelaWasm.LibcBypass
