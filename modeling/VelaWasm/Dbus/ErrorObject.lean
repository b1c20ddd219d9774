/-
The `DBusError` objects of an application. libdbus stores native string pointers in them, which the glue replaces by
application addresses after a call and by native ones before `dbus_error_free`. `glue_dbus_set_error` leaves
the native pointers.
-/
import VelaWasm.Dbus.ArgsRoundTrip
import VelaWasm.Lib.Run

namespace VelaWasm.Dbus

open VelaWasm.Run

/-! ## The glue -/

/-- `DBusError` -/
structure DBusError where
  name : Addr
  message : Addr
  deriving DecidableEq, Repr

/-- What `dbus_error_init` makes of an object, and `dbus_error_free` leaves. -/
def dbusErrorInit : DBusError := ⟨null, null⟩

section

variable (W : Wamr) (env : Addr)

/-- Both fields translated. -/
def DBusError.translate (toNative : Bool) (error : DBusError) : DBusError where
  name := VelaWasm.translate W env toNative error.name
  message := VelaWasm.translate W env toNative error.message

/-- A libdbus call with an unset object: it stores an error's strings, or leaves the object. -/
def DBusError.set (error : DBusError) (outcome : Option DBusError) : DBusError := outcome.getD error

/-- `glue_dbus_bus_get` on its object -/
def glueDbusBusGet (outcome : Option DBusError) (error : DBusError) : DBusError :=
  (error.set outcome).translate W env false

/-- `glue_dbus_set_error_from_message` on its object -/
def glueDbusSetErrorFromMessage (outcome : Option DBusError) (error : DBusError) : DBusError :=
  (error.set outcome).translate W env false

/-- `glue_dbus_set_error` on its object -/
def glueDbusSetError (outcome : Option DBusError) (error : DBusError) : DBusError := error.set outcome

/-- `glue_dbus_error_free`: what `dbus_error_free` is given, and the object after it. -/
def glueDbusErrorFree (error : DBusError) : DBusError × DBusError := (error.translate W env true, dbusErrorInit)

/-! ## Runs -/

/-- The object as the application sees it, the pointers that libdbus stored in it, and for each
`dbus_error_free` the object it was given with the pointers that libdbus had stored. -/
structure ErrorState where
  error : DBusError
  stored : DBusError
  freed : List (DBusError × DBusError)

def ErrorState.start : ErrorState := ⟨dbusErrorInit, dbusErrorInit, []⟩

/-- A call, with what libdbus stores in it. -/
inductive ErrorCall where
  | busGet (outcome : Option DBusError)
  | setErrorFromMessage (outcome : Option DBusError)
  | setError (outcome : Option DBusError)
  | errorFree
  deriving DecidableEq, Repr

/-- An error is only set on an object that is unset. -/
def errorStep (s : ErrorState) : ErrorCall → Option ErrorState
  | .busGet outcome =>
    if s.error = dbusErrorInit then
      some { s with error := glueDbusBusGet W env outcome s.error, stored := s.stored.set outcome }
    else none
  | .setErrorFromMessage outcome =>
    if s.error = dbusErrorInit then
      some { s with error := glueDbusSetErrorFromMessage W env outcome s.error, stored := s.stored.set outcome }
    else none
  | .setError outcome =>
    if s.error = dbusErrorInit then
      some { s with error := glueDbusSetError outcome s.error, stored := s.stored.set outcome }
    else none
  | .errorFree =>
    let (given, error) := glueDbusErrorFree W env s.error
    some ⟨error, dbusErrorInit, s.freed ++ [(given, s.stored)]⟩

/-! ## The property -/

/-- A field is null or the application's address of the string that libdbus stored. -/
def IsApp (field stored : Addr) : Prop := field = null ∨ field = VelaWasm.translate W env false stored

/-- The fields are application addresses, and each `dbus_error_free` got the pointers that were stored. -/
structure OneRepresentation (s : ErrorState) : Prop where
  name : IsApp W env s.error.name s.stored.name
  message : IsApp W env s.error.message s.stored.message
  freed : ∀ p ∈ s.freed, p.1 = p.2

/-- `dbus_set_error` stores strings only at native addresses that are their own application addresses. -/
def SelfAddressed : ErrorCall → Prop
  | .setError outcome => ∀ error ∈ outcome, error.translate W env false = error
  | _ => True

instance : DecidablePred (SelfAddressed W env)
  | .setError _ => Option.decidableForallMem _
  | .busGet _ | .setErrorFromMessage _ | .errorFree => isTrue trivial

end

/-! ## The invariant -/

variable {W : Wamr} {env : Addr} {s t : ErrorState}

/-- The object is the translation of what libdbus stored. -/
structure Translated (W : Wamr) (env : Addr) (s : ErrorState) : Prop where
  error : s.error = s.stored.translate W env false
  freed : ∀ p ∈ s.freed, p.1 = p.2

theorem oneRepresentation_of_translated (h : Translated W env s) : OneRepresentation W env s :=
  ⟨.inr (congrArg DBusError.name h.error), .inr (congrArg DBusError.message h.error), h.freed⟩

theorem translate_init (hnull : VelaWasm.translate W env false null = null) :
    dbusErrorInit.translate W env false = dbusErrorInit := by
  unfold DBusError.translate dbusErrorInit
  simp only [hnull]

theorem translate_native (hinv : Function.LeftInverse (VelaWasm.translate W env true) (VelaWasm.translate W env false))
    (error : DBusError) : (error.translate W env false).translate W env true = error := by
  unfold DBusError.translate
  simp only [hinv error.name, hinv error.message]

/-- What libdbus stored in an unset object is null. -/
theorem Translated.stored_init (h : Translated W env s)
    (hinv : Function.LeftInverse (VelaWasm.translate W env true) (VelaWasm.translate W env false))
    (hnull : VelaWasm.translate W env false null = null) (hs : s.error = dbusErrorInit) : s.stored = dbusErrorInit := by
  have hinit := translate_native hinv dbusErrorInit
  rw [translate_init hnull] at hinit
  rw [← translate_native hinv s.stored, ← h.error, hs, hinit]

section

variable (hinv : Function.LeftInverse (VelaWasm.translate W env true) (VelaWasm.translate W env false))
  (hnull : VelaWasm.translate W env false null = null)

include hinv hnull in
theorem translated_step {c : ErrorCall} (h : Translated W env s) (hok : SelfAddressed W env c)
    (ht : errorStep W env s c = some t) : Translated W env t := by
  cases c with
  | busGet outcome | setErrorFromMessage outcome =>
    simp only [errorStep] at ht
    split_ifs at ht with hs
    cases ht
    refine ⟨?_, h.freed⟩
    show (s.error.set outcome).translate W env false = (s.stored.set outcome).translate W env false
    rw [hs, h.stored_init hinv hnull hs]
  | setError outcome =>
    simp only [errorStep] at ht
    split_ifs at ht with hs
    cases ht
    refine ⟨?_, h.freed⟩
    show s.error.set outcome = (s.stored.set outcome).translate W env false
    rw [hs, h.stored_init hinv hnull hs]
    cases outcome with
    | none => exact (translate_init hnull).symm
    | some error => exact (hok error rfl).symm
  | errorFree =>
    cases ht
    refine ⟨(translate_init hnull).symm, fun p hp => ?_⟩
    rcases List.mem_append.1 hp with hp | hp
    · exact h.freed p hp
    · rw [List.mem_singleton.1 hp]
      show s.error.translate W env true = s.stored
      rw [h.error, translate_native hinv]

include hnull in
/-- A native pointer left in the object is no application address. -/
theorem not_oneRepresentation_step {c : ErrorCall} (hok : ¬ SelfAddressed W env c)
    (ht : errorStep W env s c = some t) : ¬ OneRepresentation W env t := by
  rintro ⟨hname, hmessage, -⟩
  cases c with
  | busGet | setErrorFromMessage | errorFree => exact hok trivial
  | setError outcome =>
    refine hok fun error herror => ?_
    cases herror
    simp only [errorStep] at ht
    split_ifs at ht with hs
    cases ht
    have hself : ∀ p, IsApp W env p p → VelaWasm.translate W env false p = p := by
      rintro p (rfl | hp)
      · exact hnull
      · exact hp.symm
    unfold DBusError.translate
    rw [hself error.name hname, hself error.message hmessage]

include hinv hnull in
/-- An object keeps one representation all along a run exactly when each string that `dbus_set_error` stores is
its own application address. -/
theorem oneRepresentation_iff {cs : List ErrorCall} (h : exec (errorStep W env) .start cs = some s) :
    Along (errorStep W env) (OneRepresentation W env) .start cs ↔
      Meets (errorStep W env) (fun _ => SelfAddressed W env) .start cs := by
  refine along_iff_meets (fun _ => oneRepresentation_of_translated)
    (fun _ _ _ hk hok ht => translated_step hinv hnull hk hok ht)
    (fun _ _ _ _ hok ht => not_oneRepresentation_step hnull hok ht) ?_ h
  exact ⟨(translate_init hnull).symm, fun p hp => (by cases hp)⟩

end

/-- Errors of `dbus_bus_get` and of a message, with strings at native addresses, each freed. -/
def setAndFreed : List ErrorCall :=
  [.busGet (some ⟨0x2000, 0x2040⟩), .errorFree, .setErrorFromMessage none, .setErrorFromMessage (some ⟨0x2400, 0x2440⟩),
    .errorFree, .errorFree]

theorem oneRepresentation_setAndFreed :
    Along (errorStep (nullWamr 0x1000) 1) (OneRepresentation (nullWamr 0x1000) 1) .start setAndFreed := by
  have hm : Meets (errorStep (nullWamr 0x1000) 1) (fun _ => SelfAddressed (nullWamr 0x1000) 1) .start setAndFreed := by
    decide
  exact (oneRepresentation_iff (nullWamr_rightInverse (by decide) 1) (by decide) rfl).2 hm

/-- `glue_dbus_set_error` leaves the native address of the name, and `dbus_error_free` gets another one. -/
theorem setError_not_oneRepresentation :
    ¬ ∀ (W : Wamr) (env : Addr) (cs : List ErrorCall) (s : ErrorState),
      Function.LeftInverse (translate W env true) (translate W env false) →
      Function.LeftInverse (translate W env false) (translate W env true) → translate W env false null = null →
      exec (errorStep W env) .start cs = some s → OneRepresentation W env s := by
  intro h
  have hrep := h (nullWamr 0x1000) 1 [.setError (some ⟨0x2000, 0x2040⟩), .errorFree] _
    (nullWamr_rightInverse (by decide) 1) (nullWamr_leftInverse (by decide) 1) (by decide) rfl
  exact absurd hrep.freed (by decide)

end VelaWasm.Dbus
