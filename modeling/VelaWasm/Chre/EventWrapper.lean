/-
Sends of the CHRE wrapper: `chreSendEventWrapper` and `chreSendMessageWithPermissionsWrapper` record the
wasm callback of a send in a map under its data pointer, and `freeFunc` and `messageFreeFunc`, which
CHRE calls once a send is done, look it up, call it and erase the entry after the call. While a callback
runs in wasm it may send again, and CHRE may complete other sends.
-/
import VelaWasm.Lib.NodeMap
import VelaWasm.Wamr

namespace VelaWasm.Chre

/-! ## Data -/

/-- The two kinds of send, each with a map of its own. -/
inductive SendKind where
  | event | message
  deriving DecidableEq, Repr

/-- `mapInternalEventData` and `mapInternalMessageData` -/
structure MapInternalData where
  execEnv : Addr
  originFuncOffset : UInt32
  deriving DecidableEq, Repr

/-- `eventDataMap` and `messageDataMap` -/
abbrev DataMap := NodeMap Addr MapInternalData

/-- A send: its callback, its data pointer, and the event type or message size CHRE hands back. -/
structure Send where
  execEnv : Addr
  data : Addr
  funcOffset : UInt32
  arg : UInt32
  deriving DecidableEq, Repr

/-- What the wrapper and CHRE know of one kind of send: the map, the sends in flight, the completions
whose callback is running with the iterator each will erase, innermost first, the completions so far
with the call each made, and whether an invalid iterator was erased. -/
structure Channel where
  map : DataMap
  inFlight : List Send
  calling : List (Nat × Send)
  completed : List (Send × Option WasmCall)
  undefined : Bool

/-- Both channels, and the kinds of the callbacks that are running, innermost first. -/
structure ChreState where
  event : Channel
  message : Channel
  stack : List SendKind

/-! ## The wrapper -/

variable (W : Wamr)

/-- The arguments of the callback of a completion. -/
def callbackArgv : SendKind → (data : UInt32) → (arg : UInt32) → List UInt32
  | .event, data, eventType => [eventType, data]
  | .message, data, messageSize => [data, messageSize]

/-- The call a completion of a send makes when the send's own callback is called. -/
def Send.call (kind : SendKind) (r : Send) : WasmCall :=
  ⟨r.execEnv, r.funcOffset,
    callbackArgv kind (W.addrNativeToApp (W.getModuleInst r.execEnv) r.data) r.arg⟩

/-- `freeFunc` and `messageFreeFunc` up to the return of the callback: the iterator and the call, or
nothing when the wrapper returns at once. -/
def freeFunc (kind : SendKind) (map : DataMap) (data : Addr) (arg : UInt32) : Option (Nat × WasmCall) :=
  match map.find data with
  | none => none
  | some item =>
    if item.val.originFuncOffset = 0 then none
    else
      some (item.id, ⟨item.val.execEnv, item.val.originFuncOffset,
        callbackArgv kind (W.addrNativeToApp (W.getModuleInst item.val.execEnv) data) arg⟩)

/-- `chreSendEventWrapper` and `chreSendMessageWithPermissionsWrapper` -/
def Channel.send (c : Channel) (r : Send) : Channel :=
  { c with map := c.map.assign r.data ⟨r.execEnv, r.funcOffset⟩, inFlight := c.inFlight ++ [r] }

/-- CHRE completes the send at `i`: the channel, and whether a callback is running now. -/
def Channel.complete (kind : SendKind) (c : Channel) (i : Nat) : Option (Channel × Bool) :=
  c.inFlight[i]?.map fun r =>
    let c := { c with inFlight := c.inFlight.eraseIdx i }
    match freeFunc W kind c.map r.data r.arg with
    | none => ({ c with completed := c.completed ++ [(r, none)] }, false)
    | some (item, call) =>
      ({ c with calling := (item, r) :: c.calling, completed := c.completed ++ [(r, some call)] }, true)

/-- The innermost callback returns and its entry is erased. -/
def Channel.finish (c : Channel) : Option Channel :=
  match c.calling with
  | [] => none
  | (item, _) :: calling =>
    match c.map.erase item with
    | none => some { c with calling, undefined := true }
    | some map => some { c with map, calling }

/-! ## Steps -/

inductive ChreAction where
  /-- a wasm module sends, from a callback or outside of one -/
  | send (kind : SendKind) (r : Send)
  /-- CHRE calls the free callback of a send in flight -/
  | complete (kind : SendKind) (i : Nat)
  /-- the innermost wasm callback returns -/
  | finish
  deriving Repr

def Channel.start : Channel := ⟨.empty, [], [], [], false⟩

def ChreState.start : ChreState := ⟨.start, .start, []⟩

def ChreState.channel (s : ChreState) : SendKind → Channel
  | .event => s.event
  | .message => s.message

def ChreState.setChannel (s : ChreState) : SendKind → Channel → ChreState
  | .event, c => { s with event := c }
  | .message, c => { s with message := c }

def chreStep (s : ChreState) : ChreAction → Option ChreState
  | .send kind r => some (s.setChannel kind ((s.channel kind).send r))
  | .complete kind i =>
    ((s.channel kind).complete W kind i).map fun (c, called) =>
      let s := s.setChannel kind c
      if called then { s with stack := kind :: s.stack } else s
  | .finish =>
    match s.stack with
    | [] => none
    | kind :: stack => (s.channel kind).finish.map fun c => { s.setChannel kind c with stack }

/-! ## The channels of a step -/

variable {W} {kind : SendKind} {c : Channel} {s t : ChreState}

theorem channel_setChannel_self : (s.setChannel kind c).channel kind = c := by cases kind <;> rfl

/-- A step changes one channel. -/
theorem forall_setChannel {P : SendKind → Channel → Prop} (h : ∀ kind, P kind (s.channel kind)) (hc : P kind c) :
    ∀ kind', P kind' ((s.setChannel kind c).channel kind') := by
  intro kind'
  cases kind <;> cases kind'
  · exact hc
  · exact h .message
  · exact h .event
  · exact hc

/-- The channels do not depend on the stack. -/
theorem channel_stack (stack : List SendKind) (kind : SendKind) :
    ({ s with stack } : ChreState).channel kind = s.channel kind := by cases kind <;> rfl

/-- A completion changes the channel of its kind. -/
theorem chreStep_complete {i : Nat} (ht : chreStep W s (.complete kind i) = some t) :
    ∃ c b, (s.channel kind).complete W kind i = some (c, b) ∧ t.channel = (s.setChannel kind c).channel := by
  obtain ⟨⟨c, b⟩, hc, rfl⟩ := Option.map_eq_some_iff.1 ht
  refine ⟨c, b, hc, ?_⟩
  cases b with
  | false => rfl
  | true => exact funext (channel_stack _)

/-- The return of a callback changes the channel of the innermost one. -/
theorem chreStep_finish (ht : chreStep W s .finish = some t) :
    ∃ kind p calling c, s.stack.head? = some kind ∧ (s.channel kind).calling = p :: calling ∧
      (s.channel kind).finish = some c ∧ t.channel = (s.setChannel kind c).channel := by
  simp only [chreStep] at ht
  split at ht
  · cases ht
  · rename_i kind stack hstack
    obtain ⟨c, hc, rfl⟩ := Option.map_eq_some_iff.1 ht
    cases hcalling : (s.channel kind).calling with
    | nil =>
      unfold Channel.finish at hc
      rw [hcalling] at hc
      cases hc
    | cons p calling =>
      exact ⟨kind, p, calling, c, by rw [hstack]; rfl, hcalling, hc, funext (channel_stack _)⟩

end VelaWasm.Chre
