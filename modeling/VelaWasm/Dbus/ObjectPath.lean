/-
Object paths: `glue_dbus_connection_register_object_path` and the two proxies libdbus calls for a
path, over every sequence of registrations and unregistrations. The proxies search the table for
the connection alone: two paths of one connection are told apart by neither of them, and each path is
dispatched to its own functions exactly as long as no record with its connection stands before its own.
-/
import VelaWasm.Dbus.CallIdx
import VelaWasm.Lib.Run

namespace VelaWasm.Dbus

open VelaWasm.Run VelaWasm.SlotTable

/-! ## The glue -/

/-- `dbus_generic_message_call_idx` -/
structure DbusGenericMessageCallIdx where
  genericMessage : UInt32
  genericUnregister : UInt32
  connection : Addr
  data : Addr
  dbusEnv : Addr
  deriving DecidableEq, Repr

/-- The application's `DBusObjectPathVTable`, whose functions are table indices. -/
structure DBusObjectPathVTable where
  unregisterFunction : UInt32
  messageFunction : UInt32
  deriving DecidableEq, Repr

variable (W : Wamr)

/-- `generic_message_proxy` -/
def genericMessageProxy (t : List DbusGenericMessageCallIdx) (connection message userData : Addr)
    (reply : Option UInt32) : Option WasmCall × UInt32 :=
  messageProxy W DbusGenericMessageCallIdx.connection DbusGenericMessageCallIdx.dbusEnv
    DbusGenericMessageCallIdx.genericMessage 1 t connection [connection, message, userData] reply

/-- `generic_unregister_proxy` -/
def genericUnregisterProxy (t : List DbusGenericMessageCallIdx) (connection userData : Addr) :
    List DbusGenericMessageCallIdx × Option WasmCall :=
  releaseProxy W DbusGenericMessageCallIdx.connection DbusGenericMessageCallIdx.dbusEnv
    DbusGenericMessageCallIdx.genericUnregister (fun e => { e with connection := null }) t connection
    [connection, userData]

/-- `glue_dbus_connection_register_object_path` up to its call of libdbus. -/
def glueDbusConnectionRegisterObjectPath (t : List DbusGenericMessageCallIdx) (env parm1 : Addr)
    (table : DBusObjectPathVTable) (parm4 : Addr) : List DbusGenericMessageCallIdx × Option Nat :=
  fill DbusGenericMessageCallIdx.connection null t
    ⟨table.messageFunction, table.unregisterFunction, parm1, parm4, env⟩

/-! ## Runs -/

/-- A path registered with libdbus, as it was given to the glue, and the slot the glue wrote. -/
structure ObjectPath where
  connection : Addr
  path : List Char
  table : DBusObjectPathVTable
  userData : Addr
  env : Addr
  slot : Option Nat
  deriving DecidableEq, Repr

/-- The record of a registration. -/
def ObjectPath.entry (r : ObjectPath) : DbusGenericMessageCallIdx :=
  ⟨r.table.messageFunction, r.table.unregisterFunction, r.connection, r.userData, r.env⟩

structure PathState where
  callIdx : List DbusGenericMessageCallIdx
  paths : List ObjectPath

inductive PathAction where
  /-- the application registers a path; libdbus accepts or refuses -/
  | register (env connection : Addr) (path : List Char) (table : DBusObjectPathVTable) (userData : Addr)
      (accepted : Bool)
  /-- libdbus unregisters a path and calls its unregister proxy -/
  | unregister (connection : Addr) (path : List Char)

/-- The table before the first registration. -/
def PathState.start : PathState := ⟨List.replicate dbusPendingCallIdxMax ⟨0, 0, null, null, null⟩, []⟩

/-- `r` is the registration of `path` on `connection`. -/
def ObjectPath.isAt (connection : Addr) (path : List Char) (r : ObjectPath) : Bool :=
  decide (r.connection = connection ∧ r.path = path)

/-- One call of the glue or of libdbus, which accepts no null connection and no path twice. -/
def pathStep (s : PathState) : PathAction → Option PathState
  | .register env c p table d accepted =>
    if accepted && (decide (c = null) || s.paths.any (ObjectPath.isAt c p)) then none
    else
      let (t, slot) := glueDbusConnectionRegisterObjectPath s.callIdx env c table d
      some ⟨t, if accepted then s.paths ++ [⟨c, p, table, d, env, slot⟩] else s.paths⟩
  | .unregister c p =>
    (s.paths.find? (ObjectPath.isAt c p)).map fun r =>
      ⟨(genericUnregisterProxy W s.callIdx r.connection r.userData).1,
        s.paths.filter fun q => !ObjectPath.isAt c p q⟩

/-- Every registered path is dispatched to the functions it was registered with, in its env, and its
unregistration clears its own slot, which no other path shares. -/
structure PathsFaithful (s : PathState) : Prop where
  message : ∀ r ∈ s.paths, ∀ message reply,
    (genericMessageProxy W s.callIdx r.connection message r.userData reply).1 =
      callOnApp W r.env r.table.messageFunction [r.connection, message, r.userData]
  unregister : ∀ r ∈ s.paths, ∃ i, r.slot = some i ∧ s.callIdx[i]? = some r.entry ∧
    genericUnregisterProxy W s.callIdx r.connection r.userData =
      (s.callIdx.set i { r.entry with connection := null },
        callOnApp W r.env r.table.unregisterFunction [r.connection, r.userData])
  slots : (s.paths.map ObjectPath.slot).Nodup

/-- No slot before the first free one holds the connection of an accepted registration, and no later
one is a live path's with the connection that is written. -/
def FreshConnection (s : PathState) : PathAction → Prop
  | .register env c _ table d accepted =>
    Fresh DbusGenericMessageCallIdx.connection null ObjectPath.slot ObjectPath.entry s.callIdx s.paths
      ⟨table.messageFunction, table.unregisterFunction, c, d, env⟩ accepted
  | .unregister .. => True

instance (s : PathState) : DecidablePred (FreshConnection s)
  | .register .. => inferInstanceAs (Decidable (Fresh ..))
  | .unregister .. => isTrue trivial

/-! ## The invariant -/

/-- Each live path is in its slot, and a search for its connection ends there. -/
abbrev PathsKept (s : PathState) : Prop :=
  Kept DbusGenericMessageCallIdx.connection null ObjectPath.slot ObjectPath.entry s.callIdx s.paths

variable {W} {s t : PathState}

theorem pathsKept_start : PathsKept PathState.start := kept_replicate _ _ _ _

theorem genericUnregisterProxy_eq (h : PathsKept s) {r : ObjectPath} (hr : r ∈ s.paths) :
    ∃ i, r.slot = some i ∧ s.callIdx[i]? = some r.entry ∧
      genericUnregisterProxy W s.callIdx r.connection r.userData =
        (s.callIdx.set i { r.entry with connection := null },
          callOnApp W r.env r.table.unregisterFunction [r.connection, r.userData]) := by
  obtain ⟨i, hi, he, hf⟩ := h.find hr
  exact ⟨i, hi, he, releaseProxy_eq (h.recorded.key_ne r hr) hf he _ _⟩

theorem pathsFaithful_of_kept (h : PathsKept s) : PathsFaithful W s := by
  refine ⟨fun r hr message reply => ?_, fun r hr => genericUnregisterProxy_eq h hr, h.recorded.nodup⟩
  obtain ⟨i, -, he, hf⟩ := h.find hr
  exact messageProxy_eq (h.recorded.key_ne r hr) hf he _ _ _

theorem pathsKept_of_faithful (hkey : ∀ r ∈ s.paths, r.connection ≠ null) (h : PathsFaithful W s) :
    PathsKept s := by
  have hrel : ∀ r ∈ s.paths, ∃ i, r.slot = some i ∧ s.callIdx[i]? = some r.entry ∧
      (genericUnregisterProxy W s.callIdx r.connection r.userData).1 =
        s.callIdx.set i { r.entry with connection := null } := by
    intro r hr
    obtain ⟨i, hi, he, heq⟩ := h.unregister r hr
    exact ⟨i, hi, he, congrArg Prod.fst heq⟩
  exact kept_of_releaseProxy (fun e => { e with connection := null }) (fun _ => rfl) hkey h.slots hrel

/-- The registration that a register call makes live, with the slot the glue wrote. -/
def registered (s : PathState) (env c : Addr) (p : List Char) (table : DBusObjectPathVTable) (d : Addr) :
    ObjectPath :=
  ⟨c, p, table, d, env, (glueDbusConnectionRegisterObjectPath s.callIdx env c table d).2⟩

/-- What a register call does: libdbus accepts no null connection. -/
theorem pathStep_register {env c : Addr} {p : List Char} {table : DBusObjectPathVTable} {d : Addr}
    {accepted : Bool} (ht : pathStep W s (.register env c p table d accepted) = some t) :
    (accepted = true → c ≠ null) ∧
      t = ⟨(glueDbusConnectionRegisterObjectPath s.callIdx env c table d).1,
        if accepted then s.paths ++ [registered s env c p table d] else s.paths⟩ := by
  simp only [pathStep] at ht
  by_cases hc : (accepted && (decide (c = null) || s.paths.any (ObjectPath.isAt c p))) = true
  · rw [if_pos hc] at ht
    cases ht
  · rw [if_neg hc] at ht
    refine ⟨?_, (Option.some.inj ht).symm⟩
    rintro rfl rfl
    exact hc rfl

theorem pathsKept_register {env c : Addr} {p : List Char} {table : DBusObjectPathVTable} {d : Addr}
    {accepted : Bool} (h : PathsKept s) (ht : pathStep W s (.register env c p table d accepted) = some t) :
    PathsKept t ↔ FreshConnection s (.register env c p table d accepted) := by
  obtain ⟨hkey, rfl⟩ := pathStep_register ht
  exact h.fill_iff (r := registered s env c p table d) rfl hkey

theorem pathsKept_unregister {c : Addr} {p : List Char} (h : PathsKept s)
    (ht : pathStep W s (.unregister c p) = some t) : PathsKept t := by
  obtain ⟨r, hr, rfl⟩ := Option.map_eq_some_iff.1 ht
  have hmem := List.mem_of_find?_eq_some hr
  have hat := List.find?_some hr
  obtain ⟨i, hi, -, heq⟩ := genericUnregisterProxy_eq (W := W) h hmem
  rw [heq]
  refine h.release List.filter_sublist hmem (fun hr' => ?_) hi rfl
  rw [List.mem_filter, hat] at hr'
  cases hr'.2

theorem pathsKept_step {a : PathAction} (h : PathsKept s) (hok : FreshConnection s a)
    (ht : pathStep W s a = some t) : PathsKept t := by
  cases a with
  | register env c p table d accepted => exact (pathsKept_register h ht).2 hok
  | unregister c p => exact pathsKept_unregister h ht

/-- A register call that is not fresh leaves a path that is not dispatched faithfully. -/
theorem not_pathsFaithful_step {a : PathAction} (h : PathsKept s) (hok : ¬ FreshConnection s a)
    (ht : pathStep W s a = some t) : ¬ PathsFaithful W t := by
  cases a with
  | register env c p table d accepted =>
    refine fun hf => hok ((pathsKept_register h ht).1 (pathsKept_of_faithful ?_ hf))
    obtain ⟨hkey, rfl⟩ := pathStep_register ht
    exact forall_mem_accepted h.recorded.key_ne hkey
  | unregister c p => exact absurd trivial hok

/-! ## Dispatch -/

/-- Along a run of registrations and unregistrations every path is dispatched faithfully, exactly
when every register call is fresh. -/
theorem pathsFaithful_iff_fresh {as : List PathAction} (h : exec (pathStep W) PathState.start as = some s) :
    Along (pathStep W) (PathsFaithful W) PathState.start as ↔
      Meets (pathStep W) FreshConnection PathState.start as :=
  along_iff_meets (fun _ hk => pathsFaithful_of_kept hk) (fun _ _ _ hk hok ht => pathsKept_step hk hok ht)
    (fun _ _ _ hk hok ht => not_pathsFaithful_step hk hok ht) pathsKept_start h

/-- Instances that translate addresses with offset 0x1000. -/
def pathWamr : Wamr := .linear id fun _ => 0x1000

/-- Two connections with a path each; the first one's path is unregistered and another one registered. -/
def twoConnections : List PathAction :=
  [.register 1 0x2000 "/a".toList ⟨6, 5⟩ 0x3000 true, .register 1 0x2400 "/b".toList ⟨8, 7⟩ 0x3400 true,
    .unregister 0x2000 "/a".toList, .register 2 0x2000 "/c".toList ⟨10, 9⟩ 0x3800 true]

theorem pathsFaithful_twoConnections :
    ∃ s, exec (pathStep pathWamr) PathState.start twoConnections = some s ∧
      Along (pathStep pathWamr) (PathsFaithful pathWamr) PathState.start twoConnections :=
  ⟨_, rfl, (pathsFaithful_iff_fresh rfl).2 (by decide)⟩

/-- Two paths of one connection. -/
def twoPaths : List PathAction :=
  [.register 1 0x2000 "/a".toList ⟨6, 5⟩ 0x3000 true, .register 1 0x2000 "/b".toList ⟨8, 7⟩ 0x3400 true]

/-- With two live paths on one connection, a message to the second runs the function of the first. -/
theorem second_path_misdirected :
    ¬ ∀ (W : Wamr) (as : List PathAction) (s : PathState), exec (pathStep W) PathState.start as = some s →
      s.paths.length < dbusPendingCallIdxMax → PathsFaithful W s := by
  intro h
  have hf := h pathWamr twoPaths _ rfl (by decide)
  have hm := hf.message ⟨0x2000, "/b".toList, ⟨8, 7⟩, 0x3400, 1, some 1⟩ (by decide) 0x5000 none
  exact absurd hm (by decide)

end VelaWasm.Dbus
