/-
Formats as native code reads them. The C library takes arguments for directives that the walkers of the bridge pass over,
such as `%*d` and `%Lf`, so what it takes for a format is a parameter here, a reading. The application lays its arguments
out for the same reading, with the 8-byte and 16-byte ones aligned, and `va_list_string2conv` finds its texts or does not.
-/
import VelaWasm.LibcBypass.Bridges
import VelaWasm.LibcBypass.Walkers
import Mathlib.Data.List.Nodup

namespace VelaWasm.LibcBypass

/-- What a directive takes: 4 bytes, 8 bytes, a `long double` or a pointer to text. -/
inductive VarargKind where
  | word | wide | longDouble | text
  deriving DecidableEq, Repr

/-- What the native function takes for a format. -/
abbrev Reading := List Char → List VarargKind

/-! ## The application's arguments -/

/-- The length in words in wasm32. -/
def VarargKind.words : VarargKind → ℕ
  | word | text => 1
  | wide => 2
  | longDouble => 4

/-- Where an argument stands that is passed when the area is filled up to `p`. -/
def VarargKind.place (p : ℕ) : VarargKind → ℕ
  | word | text => p
  | wide => align8 p
  | longDouble => (p + 15) / 16 * 16

/-- The arguments and where they stand. -/
def varargPlaces : ℕ → List VarargKind → List (VarargKind × ℕ)
  | _, [] => []
  | p, k :: ks => (k, k.place p) :: varargPlaces (k.place p + 4 * k.words) ks

/-- Where the pointers to texts stand. -/
def textPlaces (p : ℕ) (ks : List VarargKind) : List ℕ :=
  (varargPlaces p ks).filterMap fun arg => if arg.1 = .text then some arg.2 else none

/-- The words of the area with pointers to texts. -/
def textWords (ks : List VarargKind) (ap : Addr) : List Addr := (textPlaces ap.toNat ks).map UInt32.ofNat

/-! ## The walker's reading -/

def ArgKind.vararg : ArgKind → VarargKind
  | word => .word
  | wide => .wide
  | string => .text

/-- The reading of the two walkers. The native function's is the same for directives made of the flags, modifiers and
conversions that have a case in them. -/
def walkerReading : Reading := fun format => (argKinds false 0 format).map ArgKind.vararg

theorem textPlaces_vararg (p : ℕ) (ks : List ArgKind) : textPlaces p (ks.map ArgKind.vararg) = alignedStrings p ks := by
  induction ks generalizing p with
  | nil => rfl
  | cons k ks ih =>
    cases k with
    | word => exact ih (p + 4)
    | wide => exact ih (align8 p + 8)
    | string => exact congrArg (p :: ·) (ih (p + 4))

/-! ## The texts that the walk finds -/

/-- `va_list_string2conv` takes for strings the words with pointers to texts and no others. -/
def FindsTexts (reading : Reading) (format : List Char) (ap : Addr) : Prop :=
  ∀ q, q ∈ stringWords format ap ↔ q ∈ textWords (reading format) ap

/-- An area for these arguments. -/
structure AreaFits (ap : Addr) (ks : List ArgKind) : Prop where
  ne_null : ap ≠ null
  aligned : ap.toNat % 8 = 0
  fits : areaEnd ap.toNat ks ≤ 2 ^ 32

variable {reading : Reading} {format : List Char} {ap : Addr}

theorem AreaFits.stringWords_eq (h : AreaFits ap (argKinds false 0 format)) :
    stringWords format ap = (packedStrings ap.toNat (argKinds false 0 format)).map UInt32.ofNat :=
  if_neg h.ne_null

theorem AreaFits.packed_lt {ks : List ArgKind} (h : AreaFits ap ks) {a : ℕ} (ha : a ∈ packedStrings ap.toNat ks) :
    a < 2 ^ 32 := by
  have := lt_of_mem_packed (Nat.le_refl _) ha
  have := h.fits
  omega

theorem AreaFits.aligned_lt {ks : List ArgKind} (h : AreaFits ap ks) {a : ℕ} (ha : a ∈ alignedStrings ap.toNat ks) :
    a < 2 ^ 32 := by
  have := lt_of_mem_aligned ha
  have := h.fits
  omega

/-- The walk takes no word twice. -/
theorem nodup_stringWords (h : AreaFits ap (argKinds false 0 format)) : (stringWords format ap).Nodup := by
  rw [h.stringWords_eq]
  refine List.Nodup.map_on (fun a ha b hb hab => ?_) (nodup_packedStrings _ _)
  have hval := congrArg UInt32.toNat hab
  rwa [UInt32.toNat_ofNat_of_lt' (h.packed_lt ha), UInt32.toNat_ofNat_of_lt' (h.packed_lt hb)] at hval

/-- For directives that the walkers know, the walk finds the texts exactly when the format is in phase. -/
theorem findsTexts_iff_inPhase (hread : reading format = walkerReading format)
    (h : AreaFits ap (argKinds false 0 format)) :
    FindsTexts reading format ap ↔ InPhase false (argKinds false 0 format) := by
  rw [FindsTexts, h.stringWords_eq, textWords, hread, walkerReading, textPlaces_vararg]
  exact (map_ofNat_agree (fun _ => h.packed_lt) fun _ => h.aligned_lt).trans (strings_agree_iff h.aligned)

end VelaWasm.LibcBypass
