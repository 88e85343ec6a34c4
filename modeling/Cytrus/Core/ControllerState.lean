import Cytrus.Support.BitField
import Cytrus.Support.PackedTable

/-!
# Records of a movie

An input of a movie is a record of seven bytes: a type, and one of six packed
layouts. Recording fills a record from the values at hand, and playing copies
them back if the type is the expected one.

## Implementation notes

The values are those members of the services' structures that the movie reads
and writes; the others are left alone. A bit field of a service is a number of
its width, and a flag is a truth value.
-/

namespace Cytrus.Core

open Support Support.BitField

inductive ControllerStateType where
  | padAndCircle
  | touch
  | accelerometer
  | gyroscope
  | irRst
  | extraHidResponse
  deriving DecidableEq, Repr

/-- The byte that names the type. -/
def ControllerStateType.number : ControllerStateType → UInt8
  | padAndCircle => 0
  | touch => 1
  | accelerometer => 2
  | gyroscope => 3
  | irRst => 4
  | extraHidResponse => 5

/-- The flags of `PadState` that are recorded. -/
inductive Button where
  | a
  | b
  | select
  | start
  | right
  | left
  | up
  | down
  | r
  | l
  | x
  | y
  | debug
  | gpio14
  deriving DecidableEq, Repr

namespace Button

/-- In the order in which they are copied. -/
def all : List Button :=
  [a, b, select, start, right, left, up, down, r, l, x, y, debug, gpio14]

/-- The bit of `pad_and_circle.hex` that holds the flag. -/
def bit : Button → Nat
  | a => 0
  | b => 1
  | select => 2
  | start => 3
  | right => 4
  | left => 5
  | up => 6
  | down => 7
  | r => 8
  | l => 9
  | x => 10
  | y => 11
  | debug => 12
  | gpio14 => 13

theorem mem_all (button : Button) : button ∈ all := by
  cases button <;> decide

end Button

/-- What a `Handle` call is given, one kind for each of them. -/
inductive Input where
  | padAndCircle (pad : Button → Bool) (circlePadX circlePadY : Int16)
  | touch (x y : UInt16) (valid : Fin 128)
  | accelerometer (x y z : Int16)
  | gyroscope (x y z : Int16)
  | irRst (zl zr : Bool) (cStickX cStickY : Int16)
  | extraHidResponse (batteryLevel : Fin 32) (zlNotHeld zrNotHeld rNotHeld : Bool)
      (cStickX cStickY : Fin 4096)

namespace Input

def type : Input → ControllerStateType
  | padAndCircle .. => .padAndCircle
  | touch .. => .touch
  | accelerometer .. => .accelerometer
  | gyroscope .. => .gyroscope
  | irRst .. => .irRst
  | extraHidResponse .. => .extraHidResponse

/-- The input is one of the buttons and the circle pad. -/
def IsPad (input : Input) : Prop := input.type = .padAndCircle

instance (input : Input) : Decidable input.IsPad := inferInstanceAs (Decidable (_ = _))

end Input

/-- The size of a record. -/
def sizeofControllerState : Nat := 7

/-- An `s16_le`. -/
def s16Bytes (x : Int16) : List UInt8 := toBytes 2 x.toUInt16.toNat

def s16At (s : List UInt8) (i : Nat) : Int16 := (UInt16.ofNat (fieldAt s i 2)).toInt16

/-- The flags of the buttons in a record. -/
def padFields (pad : Button → Bool) : List Field :=
  Button.all.map fun button => ⟨button.bit, 1, (pad button).toNat⟩

/-- The bit fields of `extra_hid_response`, in the order in which they are recorded. -/
def extraHidFields (batteryLevel : Fin 32) (zlNotHeld zrNotHeld rNotHeld : Bool)
    (cStickX cStickY : Fin 4096) : List Field :=
  [⟨0, 5, batteryLevel⟩, ⟨8, 12, cStickX⟩, ⟨20, 12, cStickY⟩, ⟨7, 1, rNotHeld.toNat⟩,
    ⟨5, 1, zlNotHeld.toNat⟩, ⟨6, 1, zrNotHeld.toNat⟩]

namespace Input

/-- The record that `Record` makes; the rest of the union is zero. -/
def state : Input → List UInt8
  | padAndCircle pad circlePadX circlePadY =>
      ControllerStateType.padAndCircle.number ::
        (toBytes 2 (pack (padFields pad)) ++ s16Bytes circlePadX ++ s16Bytes circlePadY)
  | touch x y valid =>
      ControllerStateType.touch.number ::
        (toBytes 2 x.toNat ++ toBytes 2 y.toNat ++ toBytes 1 valid ++ [0])
  | accelerometer x y z =>
      ControllerStateType.accelerometer.number :: (s16Bytes x ++ s16Bytes y ++ s16Bytes z)
  | gyroscope x y z =>
      ControllerStateType.gyroscope.number :: (s16Bytes x ++ s16Bytes y ++ s16Bytes z)
  | irRst zl zr cStickX cStickY =>
      ControllerStateType.irRst.number ::
        (s16Bytes cStickX ++ s16Bytes cStickY ++ toBytes 1 zl.toNat ++ toBytes 1 zr.toNat)
  | extraHidResponse batteryLevel zlNotHeld zrNotHeld rNotHeld cStickX cStickY =>
      ControllerStateType.extraHidResponse.number ::
        (toBytes 4 (pack (extraHidFields batteryLevel zlNotHeld zrNotHeld rNotHeld cStickX
          cStickY)) ++ [0, 0])

/-- What `Play` makes of its arguments, given a record; a record of another type changes
nothing. -/
def play (input : Input) (s : List UInt8) : Input :=
  if s.head? ≠ some input.type.number then input
  else
    match input with
    | padAndCircle .. =>
        padAndCircle (fun button => extract button.bit 1 (fieldAt s 1 2) = 1) (s16At s 3)
          (s16At s 5)
    | touch .. =>
        touch (UInt16.ofNat (fieldAt s 1 2)) (UInt16.ofNat (fieldAt s 3 2))
          (Fin.ofNat 128 (fieldAt s 5 1))
    | accelerometer .. => accelerometer (s16At s 1) (s16At s 3) (s16At s 5)
    | gyroscope .. => gyroscope (s16At s 1) (s16At s 3) (s16At s 5)
    | irRst .. =>
        irRst (fieldAt s 5 1 % 2 = 1) (fieldAt s 6 1 % 2 = 1) (s16At s 1) (s16At s 3)
    | extraHidResponse .. =>
        let hex := fieldAt s 1 4
        extraHidResponse (Fin.ofNat 32 (extract 0 5 hex)) (extract 5 1 hex = 1)
          (extract 6 1 hex = 1) (extract 7 1 hex = 1) (Fin.ofNat 4096 (extract 8 12 hex))
          (Fin.ofNat 4096 (extract 20 12 hex))

theorem length_state (input : Input) : input.state.length = sizeofControllerState := by
  cases input <;> simp [state, s16Bytes, sizeofControllerState]

theorem head?_state (input : Input) : input.state.head? = some input.type.number := by
  cases input <;> rfl

/-! ## Playing what was recorded -/

theorem u16_fieldAt {s : List UInt8} {i : Nat} {x : UInt16}
    (h : (s.drop i).take 2 = toBytes 2 x.toNat) : UInt16.ofNat (fieldAt s i 2) = x := by
  rw [fieldAt_toBytes h x.toNat_lt, UInt16.ofNat_toNat]

theorem s16At_eq {s : List UInt8} {i : Nat} {x : Int16}
    (h : (s.drop i).take 2 = s16Bytes x) : s16At s i = x := by
  rw [s16At, u16_fieldAt h, Int16.toInt16_toUInt16]

theorem toNat_eq_one (b : Bool) : decide (b.toNat = 1) = b := by
  cases b <;> rfl

theorem apart_padFields (pad : Button → Bool) : Apart (padFields pad) := by
  have hbits : Button.all.Pairwise fun f g => BitField.Disjoint f.bit 1 g.bit 1 := by decide
  exact List.pairwise_map.mpr hbits

theorem extract_padFields (pad : Button → Bool) (button : Button) :
    extract button.bit 1 (pack (padFields pad)) = (pad button).toNat := by
  have hmem : (⟨button.bit, 1, (pad button).toNat⟩ : Field) ∈ padFields pad :=
    List.mem_map.mpr ⟨button, button.mem_all, rfl⟩
  rw [pack, extract_packFrom (apart_padFields pad) hmem]
  cases pad button <;> rfl

theorem pack_padFields_lt (pad : Button → Bool) : pack (padFields pad) < 256 ^ 2 := by
  have hbits : ∀ f ∈ padFields pad, f.pos + f.width ≤ 16 := by
    simp only [padFields, List.forall_mem_map]
    decide
  have hlt := packFrom_lt hbits (show 0 < 2 ^ 16 by decide)
  exact hlt

section ExtraHid

variable {batteryLevel : Fin 32} {zlNotHeld zrNotHeld rNotHeld : Bool} {cStickX cStickY : Fin 4096}

theorem apart_extraHidFields : Apart
    (extraHidFields batteryLevel zlNotHeld zrNotHeld rNotHeld cStickX cStickY) := by
  simp [Apart, extraHidFields, BitField.Disjoint]

theorem extract_extraHidFields {hex : Nat} (hhex : hex =
      pack (extraHidFields batteryLevel zlNotHeld zrNotHeld rNotHeld cStickX cStickY)) :
    extract 0 5 hex = batteryLevel ∧ extract 5 1 hex = zlNotHeld.toNat ∧
      extract 6 1 hex = zrNotHeld.toNat ∧ extract 7 1 hex = rNotHeld.toNat ∧
      extract 8 12 hex = cStickX ∧ extract 20 12 hex = cStickY := by
  have hfield : ∀ f ∈ extraHidFields batteryLevel zlNotHeld zrNotHeld rNotHeld cStickX cStickY,
      extract f.pos f.width hex = f.value % 2 ^ f.width := by
    intro f hf
    rw [hhex, pack, extract_packFrom apart_extraHidFields hf]
  simp only [extraHidFields, List.forall_mem_cons, List.not_mem_nil, false_implies,
    implies_true, and_true] at hfield
  obtain ⟨hbattery, hx, hy, hr, hzl, hzr⟩ := hfield
  rw [hbattery, hx, hy, hr, hzl, hzr]
  refine ⟨?_, ?_, ?_, ?_, ?_, ?_⟩
  · exact Nat.mod_eq_of_lt batteryLevel.isLt
  · exact Nat.mod_eq_of_lt zlNotHeld.toNat_lt
  · exact Nat.mod_eq_of_lt zrNotHeld.toNat_lt
  · exact Nat.mod_eq_of_lt rNotHeld.toNat_lt
  · exact Nat.mod_eq_of_lt cStickX.isLt
  · exact Nat.mod_eq_of_lt cStickY.isLt

theorem pack_extraHidFields_lt :
    pack (extraHidFields batteryLevel zlNotHeld zrNotHeld rNotHeld cStickX cStickY) < 256 ^ 4 := by
  have hbits : ∀ f ∈ extraHidFields batteryLevel zlNotHeld zrNotHeld rNotHeld cStickX cStickY,
      f.pos + f.width ≤ 32 := by
    simp [extraHidFields]
  have hlt := packFrom_lt hbits (show 0 < 2 ^ 32 by decide)
  exact hlt

end ExtraHid

theorem play_state {args input : Input} (h : args.type = input.type) :
    args.play input.state = input := by
  unfold play
  rw [head?_state, h, if_neg (not_not.mpr rfl)]
  cases input with
  | padAndCircle pad circlePadX circlePadY =>
      cases args <;> try contradiction
      have hhex : fieldAt (padAndCircle pad circlePadX circlePadY).state 1 2 =
          pack (padFields pad) := fieldAt_toBytes rfl (pack_padFields_lt pad)
      simp only [hhex, extract_padFields, toNat_eq_one]
      congr 1
      · exact s16At_eq rfl
      · exact s16At_eq rfl
  | touch x y valid =>
      cases args <;> try contradiction
      have hvalid : fieldAt (touch x y valid).state 5 1 = valid :=
        fieldAt_toBytes rfl (valid.isLt.trans (by decide))
      simp only [hvalid]
      congr 1
      · exact u16_fieldAt rfl
      · exact u16_fieldAt rfl
      · exact Fin.ext (Nat.mod_eq_of_lt valid.isLt)
  | accelerometer x y z =>
      cases args <;> try contradiction
      simp only
      congr 1 <;> exact s16At_eq rfl
  | gyroscope x y z =>
      cases args <;> try contradiction
      simp only
      congr 1 <;> exact s16At_eq rfl
  | irRst zl zr cStickX cStickY =>
      cases args <;> try contradiction
      have hzl : fieldAt (irRst zl zr cStickX cStickY).state 5 1 = zl.toNat :=
        fieldAt_toBytes rfl (zl.toNat_lt.trans (by decide))
      have hzr : fieldAt (irRst zl zr cStickX cStickY).state 6 1 = zr.toNat :=
        fieldAt_toBytes rfl (zr.toNat_lt.trans (by decide))
      simp only [hzl, hzr]
      congr 1
      · cases zl <;> rfl
      · cases zr <;> rfl
      · exact s16At_eq rfl
      · exact s16At_eq rfl
  | extraHidResponse batteryLevel zlNotHeld zrNotHeld rNotHeld cStickX cStickY =>
      cases args <;> try contradiction
      have hhex : fieldAt (extraHidResponse batteryLevel zlNotHeld zrNotHeld rNotHeld cStickX
          cStickY).state 1 4 = pack (extraHidFields batteryLevel zlNotHeld zrNotHeld rNotHeld
          cStickX cStickY) := fieldAt_toBytes rfl pack_extraHidFields_lt
      obtain ⟨hbattery, hzl, hzr, hr, hx, hy⟩ := extract_extraHidFields hhex
      simp only [hbattery, hzl, hzr, hr, hx, hy, toNat_eq_one]
      congr 1
      · exact Fin.ext (Nat.mod_eq_of_lt batteryLevel.isLt)
      · exact Fin.ext (Nat.mod_eq_of_lt cStickX.isLt)
      · exact Fin.ext (Nat.mod_eq_of_lt cStickY.isLt)

end Input

end Cytrus.Core
