import DaemonNode.Lib.Codes
import DaemonNode.Lib.Lists
import DaemonNode.Proto.Bytes
import Mathlib.Algebra.Ring.Int.Defs

/-!
# Canonical CBOR

Hashes and signatures are taken of canonical bytes: definite lengths, the
shortest head and the shortest float that hold the value, and map entries sorted
by the bytes of their keys. Every value is written as a head, which says what
follows, and a body of the length the head gives.
-/

namespace DaemonNode.Canonical

/-- A CBOR value tree. Text is its UTF-8 bytes and a float its bit pattern. -/
inductive Value
  | integer (value : Int)
  | bytes (bytes : List Byte)
  | float (bits : BitVec 64)
  | text (utf8 : List Byte)
  | bool (value : Bool)
  | null
  | tag (number : BitVec 64) (inner : Value)
  | array (items : List Value)
  | map (entries : List (Value × Value))
  /-- A kind the writer does not know, by its debug text. -/
  | other (debug : String)

open Float.Model (Format UnpackedFloat)

/-- A number rounded to a format, to nearest with ties to even. -/
def roundTo (format : Format) : UnpackedFloat → UnpackedFloat
  | .finite sign mantissa exponent _ => .round format sign mantissa exponent
  | number => number

/-- A double narrowed to single precision. -/
def f64ToF32 (bits : BitVec 64) : BitVec 32 :=
  UnpackedFloat.pack .binary32 (roundTo .binary32 (UnpackedFloat.unpack .binary64 bits))

/-- A single widened to double precision. -/
def f32ToF64 (bits : BitVec 32) : BitVec 64 :=
  UnpackedFloat.pack .binary64 (roundTo .binary64 (UnpackedFloat.unpack .binary32 bits))

/-- Whether a bit pattern is not a number. -/
def isNan (bits : BitVec 64) : Bool :=
  match UnpackedFloat.unpack .binary64 bits with
  | .notANumber => true
  | _ => false

/-- A single cut to half precision. -/
def f32ToHalfTrunc (bits : BitVec 32) : BitVec 16 :=
  let sign := ((bits >>> 16) &&& 0x8000#32).setWidth 16
  let exponent : Int := ((bits >>> 23) &&& 0xff#32).toNat
  let mantissa := bits &&& 0x007fffff#32
  if exponent = 0xff then
    if mantissa = 0 then sign ||| 0x7c00#16 else sign ||| 0x7e00#16
  else
    let unbiased := exponent - 127
    if 15 < unbiased then sign ||| 0x7c00#16
    else if unbiased < -24 then sign
    else if unbiased < -14 then
      let withImplicit := mantissa ||| 0x00800000#32
      let shift := (-unbiased - 1).toNat
      sign ||| (withImplicit >>> shift).setWidth 16
    else
      let halfExponent := BitVec.ofInt 16 (unbiased + 15) <<< 10
      let halfMantissa := (mantissa >>> 13).setWidth 16
      sign ||| halfExponent ||| halfMantissa

/-- The loop that normalizes a subnormal half: shift until the implicit bit is
set. The first argument bounds the turns. -/
def normalize : Nat → BitVec 32 → Int → BitVec 32 × Int
  | 0, mantissa, exponent => (mantissa, exponent)
  | turns + 1, mantissa, exponent =>
    if mantissa &&& 0x0400#32 = 0 then normalize turns (mantissa <<< 1) (exponent - 1)
    else (mantissa, exponent)

/-- A half widened to single precision. -/
def halfToF32 (half : BitVec 16) : BitVec 32 :=
  let sign := (half.setWidth 32 &&& 0x8000#32) <<< 16
  let exponent := (half.setWidth 32 >>> 10) &&& 0x1f#32
  let mantissa := half.setWidth 32 &&& 0x03ff#32
  if exponent = 0 then
    if mantissa = 0 then sign
    else
      let (normal, unbiased) := normalize 10 mantissa (-14)
      let fraction := normal &&& 0x03ff#32
      sign ||| (BitVec.ofInt 32 (unbiased + 127) <<< 23) ||| (fraction <<< 13)
  else if exponent = 0x1f then sign ||| 0x7f800000#32 ||| (mantissa <<< 13)
  else sign ||| ((exponent + 112) <<< 23) ||| (mantissa <<< 13)

/-- The half that holds a single exactly, if there is one. -/
def f32ToHalfExact (bits : BitVec 32) : Option (BitVec 16) :=
  let half := f32ToHalfTrunc bits
  if halfToF32 half = bits then some half else none

/-- A double in the shortest form that holds it, every NaN as the quiet half. -/
def writeFloat (bits : BitVec 64) : List Byte :=
  if isNan bits then [0xf9, 0x7e, 0x00]
  else
    let single := f64ToF32 bits
    if f32ToF64 single = bits then
      match f32ToHalfExact single with
      | some half => 0xf9 :: toBeBytes 2 half.toNat
      | none => 0xfa :: toBeBytes 4 single.toNat
    else 0xfb :: toBeBytes 8 bits.toNat

def headByte (major info : Nat) : Byte := Fin.ofNat 256 (major <<< 5 ||| info)

/-- The head of a major type, its argument in the shortest form. -/
def writeHead (major arg : Nat) : List Byte :=
  if arg < 24 then [headByte major arg]
  else if arg ≤ 255 then [headByte major 24, Fin.ofNat 256 arg]
  else if arg ≤ 65535 then headByte major 25 :: toBeBytes 2 arg
  else if arg ≤ 2 ^ 32 - 1 then headByte major 26 :: toBeBytes 4 arg
  else headByte major 27 :: toBeBytes 8 arg

/-- A length as a 64-bit argument. -/
def lengthArg (items : List α) : Nat := items.length % 2 ^ 64

mutual

/-- The canonical bytes of a value. -/
def writeValue : Value → Except VhcProtoError (List Byte)
  | .integer value =>
    if 0 ≤ value then
      if value < 2 ^ 64 then .ok (writeHead 0 value.toNat)
      else .error (.codec "uint out of 64-bit range")
    else if -1 - value < 2 ^ 64 then .ok (writeHead 1 (-1 - value).toNat)
    else .error (.codec "nint out of 64-bit range")
  | .bytes bytes => .ok (writeHead 2 (lengthArg bytes) ++ bytes)
  | .text utf8 => .ok (writeHead 3 (lengthArg utf8) ++ utf8)
  | .array items => do
    let body ← writeItems items
    .ok (writeHead 4 (lengthArg items) ++ body)
  | .map entries => do
    let encoded ← writeEntries entries
    let sorted := encoded.insertionSort fun left right => left.1 ≤ right.1
    .ok (writeHead 5 (lengthArg sorted) ++ sorted.flatMap fun entry => entry.1 ++ entry.2)
  | .bool false => .ok [0xf4]
  | .bool true => .ok [0xf5]
  | .null => .ok [0xf6]
  | .float bits => .ok (writeFloat bits)
  | .tag number inner => do
    let body ← writeValue inner
    .ok (writeHead 6 number.toNat ++ body)
  | .other debug => .error (.codec ("unsupported CBOR value in canonical encoding: " ++ debug))

/-- The items of an array, one after the other. -/
def writeItems : List Value → Except VhcProtoError (List Byte)
  | [] => .ok []
  | item :: items => do
    let first ← writeValue item
    let rest ← writeItems items
    .ok (first ++ rest)

/-- The keys and values of a map, each on its own. -/
def writeEntries : List (Value × Value) → Except VhcProtoError (List (List Byte × List Byte))
  | [] => .ok []
  | (key, value) :: entries => do
    let keyBytes ← writeValue key
    let valueBytes ← writeValue value
    let rest ← writeEntries entries
    .ok ((keyBytes, valueBytes) :: rest)

end

/-- The kinds of value whose head has an argument. -/
inductive Sized
  | unsigned
  | negative
  | bytes
  | text
  | array
  | map
  | tag

/-- The kinds of value whose head is one byte. -/
inductive Simple
  | no
  | yes
  | null
  | half
  | single
  | double

/-- What a value begins with. -/
inductive Head
  | sized (kind : Sized) (arg : Nat)
  | simple (kind : Simple)

/-- The major type of a kind. -/
def Sized.major : Sized → Nat
  | unsigned => 0
  | negative => 1
  | bytes => 2
  | text => 3
  | array => 4
  | map => 5
  | tag => 6

/-- The additional information of a kind, under major type seven. -/
def Simple.info : Simple → Nat
  | no => 20
  | yes => 21
  | null => 22
  | half => 25
  | single => 26
  | double => 27

def Head.bytes : Head → List Byte
  | sized kind arg => writeHead kind.major arg
  | simple kind => [headByte 7 kind.info]

/-- The argument of a head fits its 64 bits. -/
def Head.Fits : Head → Prop
  | sized _ arg => arg < 2 ^ 64
  | simple _ => True

theorem headByte_inj (majorFits : major < 8) (otherFits : other < 8) (infoFits : info < 32)
    (otherInfoFits : otherInfo < 32) (same : headByte major info = headByte other otherInfo) :
    major = other ∧ info = otherInfo := by
  have words := congrArg Fin.val same
  have value : ∀ {major info : Nat}, major < 8 → info < 32 →
      (headByte major info).val = major * 32 + info := by
    intro major info majorFits infoFits
    rw [headByte, Fin.val_ofNat, ← Nat.shiftLeft_add_eq_or_of_lt infoFits, Nat.shiftLeft_eq]
    omega
  rw [value majorFits infoFits, value otherFits otherInfoFits] at words
  omega

/-- The additional information of an argument. -/
def headInfo (arg : Nat) : Nat :=
  if arg < 24 then arg
  else if arg ≤ 255 then 24
  else if arg ≤ 65535 then 25
  else if arg ≤ 2 ^ 32 - 1 then 26
  else 27

/-- The bytes that follow a head byte. -/
def headWidth (info : Nat) : Nat := if info < 24 then 0 else 2 ^ (info - 24)

theorem writeHead_eq (major arg : Nat) :
    writeHead major arg =
      headByte major (headInfo arg) :: toBeBytes (headWidth (headInfo arg)) arg := by
  unfold writeHead headInfo
  split
  · rename_i small
    rw [headWidth, if_pos small]
    rfl
  split
  · simp [headWidth, toBeBytes, toLeBytes]
  split
  · rfl
  split <;> rfl

theorem headInfo_lt (arg : Nat) : headInfo arg < 28 := by
  unfold headInfo
  split_ifs <;> omega

/-- A short argument is its additional information, and any other fits the bytes
that follow. -/
theorem headInfo_spec (fits : arg < 2 ^ 64) :
    (headInfo arg < 24 → headInfo arg = arg) ∧
      (¬headInfo arg < 24 → arg < 256 ^ headWidth (headInfo arg)) := by
  unfold headInfo headWidth
  split_ifs <;> simp <;> omega

theorem writeHead_append_inj (majorFits : major < 8) (otherFits : other < 8)
    (argFits : arg < 2 ^ 64) (otherArgFits : otherArg < 2 ^ 64)
    (same : writeHead major arg ++ rest = writeHead other otherArg ++ otherRest) :
    major = other ∧ arg = otherArg ∧ rest = otherRest := by
  rw [writeHead_eq, writeHead_eq, List.cons_append, List.cons_append] at same
  obtain ⟨sameByte, sameRest⟩ := List.cons.inj same
  have below := headInfo_lt arg
  have otherBelow := headInfo_lt otherArg
  obtain ⟨sameMajor, sameInfo⟩ := headByte_inj majorFits otherFits (by omega) (by omega) sameByte
  obtain ⟨short, long⟩ := headInfo_spec argFits
  obtain ⟨otherShort, otherLong⟩ := headInfo_spec otherArgFits
  rw [← sameInfo] at sameRest otherShort otherLong
  by_cases tiny : headInfo arg < 24
  · rw [headWidth, if_pos tiny] at sameRest
    exact ⟨sameMajor, (short tiny).symm.trans (otherShort tiny), sameRest⟩
  · obtain ⟨sameArg, ended⟩ := toBeBytes_append_inj (long tiny) (otherLong tiny) sameRest
    exact ⟨sameMajor, sameArg, ended⟩

theorem Sized.major_lt (kind : Sized) : kind.major < 7 := by
  cases kind <;> decide

theorem Sized.major_inj {kind other : Sized} (same : kind.major = other.major) : kind = other := by
  cases kind <;> cases other <;> first | rfl | cases same

theorem Simple.info_lt (kind : Simple) : kind.info < 32 := by
  cases kind <;> decide

theorem Simple.info_inj {kind other : Simple} (same : kind.info = other.info) : kind = other := by
  cases kind <;> cases other <;> first | rfl | cases same

/-- No head with an argument begins as a head of one byte. -/
theorem writeHead_append_ne (kind : Sized) (arg : Nat) (rest : List Byte) (other : Simple)
    (otherRest : List Byte) :
    writeHead kind.major arg ++ rest ≠ headByte 7 other.info :: otherRest := by
  intro same
  rw [writeHead_eq, List.cons_append] at same
  have below := kind.major_lt
  have infoBelow := headInfo_lt arg
  have sameMajor := (headByte_inj (by omega) (by decide) (by omega) other.info_lt
    (List.cons.inj same).1).1
  omega

/-- A head is known from its bytes, and ends where it ends. -/
theorem Head.append_inj {head other : Head} (fits : head.Fits) (otherFits : other.Fits)
    (same : head.bytes ++ rest = other.bytes ++ otherRest) :
    head = other ∧ rest = otherRest := by
  cases head with
  | sized kind arg =>
    cases other with
    | sized otherKind otherArg =>
      have below := kind.major_lt
      have otherBelow := otherKind.major_lt
      obtain ⟨sameMajor, rfl, ended⟩ :=
        writeHead_append_inj (by omega) (by omega) fits otherFits same
      exact ⟨congrArg (sized · arg) (Sized.major_inj sameMajor), ended⟩
    | simple otherKind => exact absurd same (writeHead_append_ne _ _ _ _ _)
  | simple kind =>
    cases other with
    | sized otherKind otherArg => exact absurd same.symm (writeHead_append_ne _ _ _ _ _)
    | simple otherKind =>
      obtain ⟨sameByte, ended⟩ := List.cons.inj same
      have sameInfo := (headByte_inj (by decide) (by decide) kind.info_lt
        otherKind.info_lt sameByte).2
      exact ⟨congrArg simple (Simple.info_inj sameInfo), ended⟩

end DaemonNode.Canonical
